import Chip8.Proofs.Memory.Block

/-!
# Blocks that lie in memory

Memory holds a block from an address on if each byte of the block is in its place. An
accepted write leaves its block there, and an accepted read gives the block that is there.
What was written is therefore read again as long as none of its bytes is overwritten, and to
write a block where it lies already changes nothing.
-/
namespace Chip8.Memory
variable {size : Nat} {m after : Memory size} {address : Nat} {block : Array UInt8}

/-- Memory holds a block of bytes from an address on. -/
def Stores (m : Memory size) (address : Nat) (block : Array UInt8) : Prop :=
  ∀ k (hk : k < block.size), m.bytes[address + k]? = some block[k]

theorem stores_overlay (bytes : Vector UInt8 size) {start : Nat} {block : Array UInt8}
    (h : start + block.size ≤ size) : Stores ⟨overlay bytes start block.toList⟩ start block := by
  intro k hk
  have hin : start + k < size := by omega
  rw [Vector.getElem?_eq_getElem hin, getElem_overlay, if_pos (Nat.le_add_right start k),
    Nat.add_sub_cancel_left, Array.getElem?_toList, Array.getElem?_eq_getElem hk, Option.getD_some]

/-- A block is still there if none of its bytes has changed. -/
theorem Stores.congr (h : m.Stores address block)
    (hkept : ∀ k (hk : k < size), address ≤ k → k < address + block.size →
      after.bytes[k] = m.bytes[k]) : after.Stores address block := by
  intro k hk
  obtain ⟨hin, hbyte⟩ := Vector.getElem?_eq_some_iff.mp (h k hk)
  rw [Vector.getElem?_eq_getElem hin,
    hkept (address + k) hin (Nat.le_add_right address k) (by omega), hbyte]

/-- A block stays where it is if another is laid over memory behind it. -/
theorem Stores.overlay_behind {bytes : Vector UInt8 size} {address start : Nat}
    {block : Array UInt8} (h : Stores ⟨bytes⟩ address block)
    (hbehind : address + block.size ≤ start) (other : List UInt8) :
    Stores ⟨overlay bytes start other⟩ address block :=
  h.congr fun _ hk _ hlast => getElem_overlay_of_outside _ _ _ hk (.inl (by omega))

theorem Stores.holds (h : m.Stores address block) (hblock : 0 < block.size) :
    Holds size address block.size := by
  obtain ⟨hlast, -⟩ := Vector.getElem?_eq_some_iff.mp (h (block.size - 1) (by omega))
  unfold Holds
  omega

theorem Stores.overlay_eq (h : m.Stores address block) :
    overlay m.bytes address block.toList = m.bytes := by
  ext k hk
  rw [getElem_overlay]
  split
  · rename_i hle
    by_cases hin : k - address < block.size
    · have hbyte := h (k - address) hin
      rw [Nat.add_sub_cancel' hle, Vector.getElem?_eq_getElem hk] at hbyte
      rw [Array.getElem?_toList, Array.getElem?_eq_getElem hin, ← hbyte, Option.getD_some]
    · rw [Array.getElem?_toList, Array.getElem?_eq_none (Nat.not_lt.mp hin), Option.getD_none]
  · rfl

/-- To write a block where it lies already changes nothing. -/
theorem Stores.writeBlock (h : m.Stores address block) (hblock : 0 < block.size) :
    Memory.writeBlock address block m = .ok () m := by
  rw [writeBlock_eq m block (Int.natCast_nonneg address), if_pos (h.holds hblock),
    Int.toNat_natCast, h.overlay_eq]

theorem stores_of_writeBlock {address : Int}
    (hw : Memory.writeBlock address block m = .ok () after) :
    after.Stores address.toNat block := by
  obtain ⟨h, hin, rfl⟩ := writeBlock_eq_ok_iff.mp hw
  unfold Holds at hin
  exact stores_overlay m.bytes (by omega)

theorem stores_of_readBlock {address length : Int} (h : 0 ≤ address) (hl : 0 ≤ length)
    (hr : m.readBlock address length = .ok block) : m.Stores address.toNat block := by
  intro k hk
  have hbyte := get?_of_readBlock h hl hr hk
  rw [get?_eq m (by omega)] at hbyte
  rwa [show (address + k).toNat = address.toNat + k by omega] at hbyte

theorem Stores.readBlock (h : m.Stores address block) (hblock : 0 < block.size) :
    m.readBlock address block.size = .ok block := by
  have hin := h.holds hblock
  rw [readBlock_eq m (Int.natCast_nonneg address) (Int.natCast_nonneg block.size), if_pos hin,
    Except.ok.injEq]
  unfold Holds at hin
  apply Array.ext
  · simp only [Array.size_extract, Vector.size_toArray]
    omega
  · intro k _ hk
    obtain ⟨hbyte, hsame⟩ := Vector.getElem?_eq_some_iff.mp (h k hk)
    simpa using hsame

/-- The byte at an address is the one of the block there. -/
theorem Stores.get? (h : m.Stores address block) {k : Nat} (hk : k < block.size) :
    m.get? (address + k : Nat) = some block[k] := by
  rw [get?_eq m (Int.natCast_nonneg _), Int.toNat_natCast]
  exact h k hk

/-- The word at an address is still there if neither of its bytes has changed. -/
theorem word?_congr (hin : address + 1 < size)
    (hkept : ∀ k (hk : k < size), address ≤ k → k ≤ address + 1 → after.bytes[k] = m.bytes[k]) :
    after.word? address = m.word? address := by
  rw [word?_eq_some hin, word?_eq_some hin, hkept address _ (Nat.le_refl _) (Nat.le_succ _),
    hkept (address + 1) hin (Nat.le_succ _) (Nat.le_refl _)]

end Chip8.Memory
