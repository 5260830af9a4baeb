import Chip8.Proofs.Memory.Outside

/-!
# What memory remembers

A write is done as a whole or not at all. It is done exactly if its block lies in memory. One
that ends in memory but begins below zero passes the check of its last address, and is refused
because the positions it names are too few for its bytes.

After any number of writes each byte is the one of the last write that was done and covers it,
and a byte that none of them covers is what it was at first.
-/
namespace Chip8.Memory
variable {size : Nat}

structure Write where
  address : Int
  block : Array UInt8
  deriving DecidableEq

namespace Write

/-- The byte that is to be written to an address, if the block covers it. -/
def byte? (w : Write) (address : Int) : Option UInt8 :=
  if address < w.address then none else w.block[(address - w.address).toNat]?

def perform (m : Memory size) (w : Write) : Memory size :=
  match writeBlock w.address w.block m with
  | .ok _ after => after
  | .error _ left => left

end Write

def after (m : Memory size) (writes : List Write) : Memory size := writes.foldl Write.perform m

/-- The writes that are done, out of those that are asked for. -/
def done (m : Memory size) : List Write → List Write
  | [] => []
  | w :: writes =>
      match writeBlock w.address w.block m with
      | .ok _ _ => w :: (w.perform m).done writes
      | .error _ _ => (w.perform m).done writes

/-- The byte of the last write that covers an address, if one of them does. -/
def lastByte? (writes : List Write) (address : Int) : Option UInt8 :=
  writes.reverse.findSome? (·.byte? address)

theorem lastByte?_cons (w : Write) (writes : List Write) (address : Int) :
    lastByte? (w :: writes) address = (lastByte? writes address).or (w.byte? address) := by
  simp [lastByte?, List.findSome?_append]

namespace Write
variable {w : Write} {address : Int}

theorem byte?_of_inside {k : Nat} (hk : k < w.block.size) :
    w.byte? (w.address + k) = some w.block[k] := by
  have hnot : ¬ w.address + k < w.address := by omega
  have hindex : (w.address + k - w.address).toNat = k := by omega
  rw [byte?, if_neg hnot, hindex, Array.getElem?_eq_getElem hk]

theorem byte?_of_outside (h : address < w.address ∨ w.address + w.block.size ≤ address) :
    w.byte? address = none := by
  unfold byte?
  split
  · rfl
  · exact Array.getElem?_eq_none (by omega)

end Write

variable {m after : Memory size} {address : Int} {block : Array UInt8}

theorem writeBlock_of_not_holds (m : Memory size) (h : ¬ Holds size address block.size) :
    writeBlock address block m = .error (.outside (address + block.size - 1) m.top) m := by
  rw [writeBlock_apply, if_neg h]

theorem writeBlock_of_straddles (m : Memory size) (h : Straddles size address block.size) :
    writeBlock address block m = .error .unequalBlock m := by
  rw [writeBlock_apply, if_pos h.2, if_neg (Int.not_le.mpr h.1)]

theorem get?_of_inside (m : Memory size) {k : Nat} (hk : k < size) :
    m.get? k = some m.bytes[k] := by
  rw [get?_eq m (Int.natCast_nonneg k), Int.toNat_natCast, Vector.getElem?_eq_getElem hk]

theorem get?_of_outside (m : Memory size) (h : address < 0 ∨ size ≤ address) :
    m.get? address = none := by
  unfold get?
  split
  · rfl
  · exact Vector.getElem?_eq_none (by omega)

/-- Every address holds the byte that was written to it, or else what it held before. -/
theorem get?_of_writeBlock {w : Write} (hw : writeBlock w.address w.block m = .ok () after)
    (address : Int) : after.get? address = (w.byte? address).or (m.get? address) := by
  obtain ⟨h, hin, rfl⟩ := writeBlock_eq_ok_iff.mp hw
  unfold Holds at hin
  by_cases hout : address < 0 ∨ size ≤ address
  · rw [get?_of_outside _ hout, get?_of_outside m hout, Write.byte?_of_outside (by omega)]
    rfl
  · obtain ⟨k, rfl⟩ : ∃ k : Nat, address = k := ⟨address.toNat, by omega⟩
    have hk : k < size := by omega
    rw [get?_of_inside _ hk, get?_of_inside m hk, getElem_overlay, Write.byte?]
    by_cases hle : w.address.toNat ≤ k
    · have hindex : ((k : Int) - w.address).toNat = k - w.address.toNat := by omega
      rw [if_pos hle, if_neg (by omega), hindex, Array.getElem?_toList]
      cases w.block[k - w.address.toNat]? <;> rfl
    · rw [if_neg hle, if_pos (by omega)]
      rfl

theorem perform_of_ok {w : Write} (hw : writeBlock w.address w.block m = .ok () after) :
    w.perform m = after := by
  unfold Write.perform
  rw [hw]

theorem perform_of_error {w : Write} {e : Error} {left : Memory size}
    (hw : writeBlock w.address w.block m = .error e left) : w.perform m = m := by
  unfold Write.perform
  rw [hw]
  exact eq_of_writeBlock_eq_error hw

theorem get?_after (m : Memory size) (writes : List Write) (address : Int) :
    (m.after writes).get? address =
      (lastByte? (m.done writes) address).or (m.get? address) := by
  induction writes generalizing m with
  | nil => rfl
  | cons w writes ih =>
      show ((w.perform m).after writes).get? address = _
      rw [ih, done]
      cases hw : writeBlock w.address w.block m with
      | ok _ after =>
          rw [perform_of_ok hw, lastByte?_cons, get?_of_writeBlock hw, Option.or_assoc]
      | error e left => rw [perform_of_error hw]

theorem get?_blank (address : Int) :
    (blank size).get? address = if 0 ≤ address ∧ address < size then some 0 else none := by
  by_cases hin : 0 ≤ address ∧ address < size
  · obtain ⟨k, rfl⟩ : ∃ k : Nat, address = k := ⟨address.toNat, by omega⟩
    rw [if_pos hin, get?_of_inside _ (by omega)]
    simp [blank]
  · rw [if_neg hin, get?_of_outside _ (by omega)]

structure Laid (m after : Memory size) (address : Int) (block : Array UInt8) : Prop where
  inside : 0 ≤ address ∧ address + block.size ≤ size
  covered : ∀ k (hk : k < block.size), after.get? (address + k) = some block[k]
  others : ∀ a, a < address ∨ address + block.size ≤ a → after.get? a = m.get? a

theorem laid_of_writeBlock (hw : writeBlock address block m = .ok () after) :
    Laid m after address block where
  inside := by
    obtain ⟨h, hin, -⟩ := writeBlock_eq_ok_iff.mp hw
    exact ⟨h, hin.2⟩
  covered k hk := by
    rw [get?_of_writeBlock (w := ⟨address, block⟩) hw, Write.byte?_of_inside hk]
    rfl
  others a hout := by
    rw [get?_of_writeBlock (w := ⟨address, block⟩) hw, Write.byte?_of_outside hout]
    rfl

theorem read_after (writes : List Write) (address : Int) :
    ((blank size).after writes).read address =
      if 0 ≤ address ∧ address < size then
        .ok ((lastByte? ((blank size).done writes) address).getD 0)
      else .error (.outside address ((size : Int) - 1)) := by
  unfold read
  by_cases hin : 0 ≤ address ∧ address < size
  · rw [get?_after, get?_blank, if_pos hin, if_pos hin]
    cases lastByte? ((blank size).done writes) address <;> rfl
  · rw [get?_of_outside _ (by omega), if_neg hin]
    rfl

/-- Whatever memory holds and wherever a block begins, a write lays down the whole block or
leaves memory as it was. So memory keeps its size and shows the last write to each address. -/
theorem writes_are_whole (size : Nat) :
    (∀ (m : Memory size) (w : Write),
      ((∃ after, writeBlock w.address w.block m = .ok () after) ↔
        0 ≤ w.address ∧ Holds size w.address w.block.size) ∧
      (∀ after, writeBlock w.address w.block m = .ok () after →
        w.perform m = after ∧ Laid m after w.address w.block) ∧
      ∀ e left, writeBlock w.address w.block m = .error e left → left = m ∧ w.perform m = m ∧
        e = if Straddles size w.address w.block.size then .unequalBlock
          else .outside (w.address + w.block.size - 1) m.top) ∧
    ∀ writes : List Write,
      ((blank size).after writes).bytes.toArray.size = size ∧
      ∀ address, ((blank size).after writes).read address =
        if 0 ≤ address ∧ address < size then
          .ok ((lastByte? ((blank size).done writes) address).getD 0)
        else .error (.outside address ((size : Int) - 1)) := by
  refine ⟨fun m w => ⟨?_, fun after hw => ⟨perform_of_ok hw, laid_of_writeBlock hw⟩,
    fun e left hw => ⟨eq_of_writeBlock_eq_error hw, perform_of_error hw, ?_⟩⟩,
    fun writes => ⟨Vector.size_toArray _, read_after writes⟩⟩
  · constructor
    · rintro ⟨after, hw⟩
      obtain ⟨h, hin, -⟩ := writeBlock_eq_ok_iff.mp hw
      exact ⟨h, hin⟩
    · rintro ⟨h, hin⟩
      exact ⟨_, writeBlock_eq_ok_iff.mpr ⟨h, hin, rfl⟩⟩
  · by_cases hholds : Holds size w.address w.block.size
    · have hneg : w.address < 0 := by
        refine Int.not_le.mp fun h => ?_
        cases hw.symm.trans (writeBlock_eq_ok_iff.mpr ⟨h, hholds, rfl⟩)
      have hstraddles : Straddles size w.address w.block.size := ⟨hneg, hholds⟩
      rw [writeBlock_of_straddles m hstraddles] at hw
      cases hw
      rw [if_pos hstraddles]
    · rw [writeBlock_of_not_holds m hholds] at hw
      cases hw
      rw [if_neg fun hstraddles => hholds hstraddles.2]

/-- Writes that overlap, one that begins below zero and one that ends beyond memory. -/
def someWrites : List Write :=
  [⟨2, #[1, 2, 3]⟩, ⟨-1, #[9, 9]⟩, ⟨4, #[7, 7]⟩, ⟨15, #[5, 5]⟩]

theorem later_write_shows :
    writeBlock (-1) #[9, 9] (blank 16) = .error .unequalBlock (blank 16) ∧
      (Write.mk (-1) #[9, 9]).perform (blank 16) = blank 16 ∧
      ((blank 16).after someWrites).read 3 = .ok 2 ∧
      ((blank 16).after someWrites).read 4 = .ok 7 ∧
      ((blank 16).after someWrites).read 15 = .ok 0 := by
  obtain ⟨hone, hmany⟩ := writes_are_whole 16
  obtain ⟨-, -, hrefused⟩ := hone (blank 16) ⟨-1, #[9, 9]⟩
  obtain ⟨-, hread⟩ := hmany someWrites
  have hw : writeBlock (-1) #[9, 9] (blank 16) = .error .unequalBlock (blank 16) := rfl
  obtain ⟨-, hunchanged, -⟩ := hrefused _ _ hw
  rw [hread, hread, hread]
  exact ⟨hw, hunchanged, rfl, rfl, rfl⟩

end Chip8.Memory
