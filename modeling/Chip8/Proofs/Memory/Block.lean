import Chip8.Memory

/-!
# Blocks of memory

A block that begins at zero or above is accepted exactly if its last byte lies
in memory, and then all of it does. An accepted read gives as many bytes as were
asked for, and an accepted write lays its bytes over memory and leaves the
others as they are. A write that begins below zero is never accepted; what a
read gives there is not said here.
-/
namespace Chip8.Memory
variable {size : Nat}

theorem check_eq (m : Memory size) (address : Int) :
    m.check address =
      if 0 ≤ address ∧ address < size then .ok () else .error (.outside address m.top) := by
  unfold check top
  by_cases h : 0 ≤ address ∧ address < size
  · have hout : ¬ (address < 0 ∨ address > (size : Int) - 1) := by omega
    rw [if_neg hout, if_pos h]
    rfl
  · have hout : address < 0 ∨ address > (size : Int) - 1 := by omega
    rw [if_pos hout, if_neg h]
    rfl

theorem position_of_le {address : Int} (h : 0 ≤ address) (hs : address ≤ size) :
    position size address = address.toNat := by
  unfold position
  rw [if_neg (by omega)]
  omega

/-- Whether a block that begins at an address lies in memory. A block without
bytes does so if the byte before it does, since the last byte is all that is
looked at. -/
def Holds (size : Nat) (address length : Int) : Prop :=
  1 ≤ address + length ∧ address + length ≤ size

instance (size : Nat) (address length : Int) : Decidable (Holds size address length) :=
  inferInstanceAs (Decidable (_ ∧ _))

/-- The check of the last address is the check whether the block lies in memory. -/
theorem check_last_eq (m : Memory size) (address length : Int) :
    m.check (address + length - 1) =
      if Holds size address length then .ok ()
      else .error (.outside (address + length - 1) m.top) := by
  have hlast : 0 ≤ address + length - 1 ∧ address + length - 1 < size ↔
      Holds size address length := by
    unfold Holds
    omega
  simp only [check_eq, hlast]

theorem readBlock_eq (m : Memory size) {address length : Int} (h : 0 ≤ address)
    (hl : 0 ≤ length) :
    m.readBlock address length =
      if Holds size address length then
        .ok (m.bytes.toArray.extract address.toNat (address + length).toNat)
      else .error (.outside (address + length - 1) m.top) := by
  unfold readBlock
  rw [check_last_eq]
  by_cases hin : Holds size address length
  · rw [if_pos hin, if_pos hin]
    unfold Holds at hin
    rw [position_of_le h (by omega), position_of_le (by omega) (by omega)]
    rfl
  · rw [if_neg hin, if_neg hin]
    rfl

/-- An accepted read is never short. -/
theorem size_of_readBlock {m : Memory size} {address length : Int} {block : Array UInt8}
    (h : 0 ≤ address) (hl : 0 ≤ length) (hr : m.readBlock address length = .ok block) :
    (block.size : Int) = length := by
  rw [readBlock_eq m h hl] at hr
  split at hr
  · rename_i hin
    unfold Holds at hin
    cases hr
    simp only [Array.size_extract, Vector.size_toArray]
    omega
  · cases hr

/-- What a write makes of memory. Below zero the positions of a block never span as many
bytes as it has. -/
theorem writeBlock_apply (m : Memory size) (address : Int) (block : Array UInt8) :
    writeBlock address block m =
      if Holds size address block.size then
        if 0 ≤ address then .ok () ⟨overlay m.bytes address.toNat block.toList⟩
        else .error .unequalBlock m
      else .error (.outside (address + block.size - 1) m.top) m := by
  have hrun : writeBlock address block m =
      match m.check (address + block.size - 1) with
      | .error e => .error e m
      | .ok _ =>
          if position size (address + block.size) - position size address = block.size then
            .ok () ⟨overlay m.bytes (position size address) block.toList⟩
          else .error .unequalBlock m := by
    unfold writeBlock
    show EStateM.bind (ofExcept (m.check _)) _ m = _
    cases m.check (address + block.size - 1) with
    | error e => rfl
    | ok _ =>
        show (if _ then _ else _ : EStateM Error (Memory size) Unit) m = _
        split <;> rfl
  rw [hrun, check_last_eq]
  by_cases hin : Holds size address block.size
  · rw [if_pos hin, if_pos hin]
    unfold Holds at hin
    have hstop : position size (address + block.size) = (address + block.size).toNat :=
      position_of_le (by omega) (by omega)
    dsimp only
    by_cases h : 0 ≤ address
    · have hstart : position size address = address.toNat := position_of_le h (by omega)
      have hspan : (address + block.size).toNat - address.toNat = block.size := by omega
      rw [if_pos h, hstop, hstart, if_pos hspan]
    · have hspan : ¬ (address + block.size).toNat - position size address = block.size := by
        rw [position, if_pos (Int.not_le.mp h)]
        omega
      rw [if_neg h, hstop, if_neg hspan]
  · rw [if_neg hin, if_neg hin]

theorem writeBlock_eq (m : Memory size) {address : Int} (block : Array UInt8)
    (h : 0 ≤ address) :
    writeBlock address block m =
      if Holds size address block.size then
        .ok () ⟨overlay m.bytes address.toNat block.toList⟩
      else .error (.outside (address + block.size - 1) m.top) m := by
  rw [writeBlock_apply, if_pos h]

theorem writeBlock_eq_ok_iff {m after : Memory size} {address : Int} {block : Array UInt8} :
    writeBlock address block m = .ok () after ↔
      0 ≤ address ∧ Holds size address block.size ∧
        after = ⟨overlay m.bytes address.toNat block.toList⟩ := by
  rw [writeBlock_apply]
  by_cases hin : Holds size address block.size <;> by_cases h : 0 ≤ address <;>
    simp [hin, h, eq_comm]

/-- A write that is refused has written nothing. -/
theorem eq_of_writeBlock_eq_error {m left : Memory size} {address : Int} {block : Array UInt8}
    {e : Error} (hw : writeBlock address block m = .error e left) : left = m := by
  rw [writeBlock_apply] at hw
  split at hw
  · split at hw <;> cases hw
    rfl
  · cases hw
    rfl

theorem getElem_overlay_of_outside (bytes : Vector UInt8 size) (start : Nat) (block : List UInt8)
    {k : Nat} (hk : k < size) (h : k < start ∨ start + block.length ≤ k) :
    (overlay bytes start block)[k] = bytes[k] := by
  rw [getElem_overlay]
  split
  · rw [List.getElem?_eq_none (by omega)]
    rfl
  · rfl

/-- A write leaves every byte outside its block as it was. -/
theorem getElem_writeBlock_of_outside {m after : Memory size} {address : Int}
    {block : Array UInt8} (hw : writeBlock address block m = .ok () after)
    {k : Nat} (hk : k < size) (hout : (k : Int) < address ∨ address + block.size ≤ k) :
    after.bytes[k] = m.bytes[k] := by
  obtain ⟨h, -, rfl⟩ := writeBlock_eq_ok_iff.mp hw
  exact getElem_overlay_of_outside _ _ _ hk (by simp only [Array.length_toList]; omega)

theorem get?_eq (m : Memory size) {address : Int} (h : 0 ≤ address) :
    m.get? address = m.bytes[address.toNat]? := by
  unfold get?
  rw [if_neg (by omega)]

/-- The bytes of an accepted read are those from its address on. -/
theorem get?_of_readBlock {m : Memory size} {address length : Int} {block : Array UInt8}
    (h : 0 ≤ address) (hl : 0 ≤ length) (hr : m.readBlock address length = .ok block) {k : Nat}
    (hk : k < block.size) : m.get? (address + k) = some block[k] := by
  rw [readBlock_eq m h hl] at hr
  split at hr
  · rename_i hin
    unfold Holds at hin
    cases hr
    have hk' : k < (address + length).toNat - address.toNat := by
      simp at hk
      omega
    have hposition : (address + k).toNat = address.toNat + k := by omega
    rw [get?_eq m (by omega), hposition]
    simp
  · cases hr

/-- There is no word exactly where one of its two bytes would lie outside memory. -/
theorem word?_eq_none_iff {m : Memory size} {address : Int} :
    m.word? address = none ↔ address < 0 ∨ size ≤ address + 1 := by
  by_cases h : address < 0
  · simp [word?, get?, h]
  · rw [word?, get?_eq m (by omega), get?_eq m (by omega)]
    by_cases hin : size ≤ address + 1
    · have hlow : m.bytes[(address + 1).toNat]? = none := by
        rw [Vector.getElem?_eq_none_iff]
        omega
      simp [hlow, hin]
    · have hhigh : address.toNat < size := by omega
      have hlow : (address + 1).toNat < size := by omega
      simp [hhigh, hlow, h, hin]

/-- A word is two bytes in memory, the high one first. -/
theorem word?_eq_some {m : Memory size} {address : Nat} (h : address + 1 < size) :
    m.word? address = some (m.bytes[address].toNat * 256 + m.bytes[address + 1].toNat) := by
  rw [word?, get?_eq m (by omega), get?_eq m (by omega)]
  have hlow : ((address : Int) + 1).toNat = address + 1 := by omega
  simp [hlow, h, show address < size by omega]

theorem bounds_of_word? {m : Memory size} {address : Int} {word : Nat}
    (h : m.word? address = some word) : 0 ≤ address ∧ address + 1 < size := by
  have hin : ¬ (address < 0 ∨ size ≤ address + 1) := by
    rw [← word?_eq_none_iff (m := m), h]
    exact Option.some_ne_none _
  omega

theorem word?_lt {m : Memory size} {address : Int} {word : Nat}
    (h : m.word? address = some word) : word < 65536 := by
  simp only [word?, bind, Option.bind_eq_some_iff, pure, Option.some.injEq] at h
  obtain ⟨high, _, low, _, rfl⟩ := h
  have := high.toNat_lt
  have := low.toNat_lt
  omega

end Chip8.Memory
