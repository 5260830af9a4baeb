import Chip8.Proofs.Memory.Block

/-!
# Blocks that leave memory

A block is refused or read as its bytes are read one by one, unless it begins below zero and
ends in memory. Such a block is accepted as well. What is read then are the bytes between two
positions, the first of which is counted back from the end of memory, and there are never as
many of them as were asked for.
-/
namespace Chip8.Memory
variable {size : Nat}

/-- The block is what its addresses give one by one, and all of them lie in memory. -/
structure ReadOut (m : Memory size) (address : Int) (length : Nat) (block : Array UInt8) :
    Prop where
  size_eq : block.size = length
  inside : ∀ k : Nat, k < length → 0 ≤ address + k ∧ address + k < size
  read_eq : ∀ (k : Nat) (hk : k < block.size), m.read (address + k) = .ok block[k]

/-- Whether a block begins below zero and ends in memory. -/
def Straddles (size : Nat) (address length : Int) : Prop :=
  address < 0 ∧ Holds size address length

instance (size : Nat) (address length : Int) : Decidable (Straddles size address length) :=
  inferInstanceAs (Decidable (_ ∧ _))

theorem readOut_of_readBlock {m : Memory size} {address : Int} {length : Nat}
    {block : Array UInt8} (h : 0 ≤ address) (hr : m.readBlock address length = .ok block) :
    m.ReadOut address length block where
  size_eq := Int.ofNat_inj.mp (size_of_readBlock h (Int.natCast_nonneg length) hr)
  inside k hk := by
    rw [readBlock_eq m h (Int.natCast_nonneg length)] at hr
    split at hr
    · rename_i hin
      unfold Holds at hin
      omega
    · cases hr
  read_eq k hk := by
    rw [read, get?_of_readBlock h (Int.natCast_nonneg length) hr hk]
    rfl

theorem readBlock_of_not_holds (m : Memory size) {address length : Int}
    (h : ¬ Holds size address length) :
    m.readBlock address length = .error (.outside (address + length - 1) m.top) := by
  unfold readBlock
  rw [check_last_eq, if_neg h]
  rfl

/-- Below zero the two positions never span as many bytes as the block has. -/
theorem readBlock_of_straddles (m : Memory size) {address : Int} {length : Nat}
    (h : Straddles size address length) :
    ∃ block, m.readBlock address length = .ok block ∧
      block = m.bytes.toArray.extract (address + size).toNat (address + length).toNat ∧
      block.size < length := by
  obtain ⟨hneg, hin⟩ := h
  have hbounds := hin
  unfold Holds at hbounds
  refine ⟨_, ?_, rfl, ?_⟩
  · unfold readBlock
    rw [check_last_eq, if_pos hin, position_of_le (by omega) hin.2, position, if_pos hneg]
    rfl
  · simp only [Array.size_extract, Vector.size_toArray]
    omega

/-- A block is refused or read byte for byte exactly where it does not reach into memory from
below, and where it does, fewer bytes come back than were asked for. -/
theorem readBlock_reports_iff (m : Memory size) (address : Int) (length : Nat) :
    ((m.readBlock address length = .error (.outside (address + length - 1) m.top) ∨
        ∃ block, m.readBlock address length = .ok block ∧ m.ReadOut address length block) ↔
      ¬ Straddles size address length) ∧
    (Straddles size address length → ∃ block, m.readBlock address length = .ok block ∧
      block = m.bytes.toArray.extract (address + size).toNat (address + length).toNat ∧
      block.size < length) := by
  refine ⟨⟨?_, fun hnot => ?_⟩, readBlock_of_straddles m⟩
  · intro hreported hstraddles
    obtain ⟨short, hr, -, hsize⟩ := readBlock_of_straddles m hstraddles
    rw [hr] at hreported
    rcases hreported with herror | ⟨block, hok, hout⟩
    · cases herror
    · cases hok
      exact absurd hout.size_eq (Nat.ne_of_lt hsize)
  · by_cases hin : Holds size address length
    · have h : 0 ≤ address := Int.not_lt.mp fun hneg => hnot ⟨hneg, hin⟩
      have hr := readBlock_eq m h (Int.natCast_nonneg length)
      rw [if_pos hin] at hr
      exact .inr ⟨_, hr, readOut_of_readBlock h hr⟩
    · exact .inl (readBlock_of_not_holds m hin)

theorem block_from_below_is_short :
    Straddles 16 (-1) 2 ∧ ∃ block, (blank 16).readBlock (-1) 2 = .ok block ∧ block.size < 2 := by
  have h : Straddles 16 (-1) 2 := by decide
  obtain ⟨block, hr, -, hshort⟩ := (readBlock_reports_iff (blank 16) (-1) 2).2 h
  exact ⟨h, block, hr, hshort⟩

/-- The byte below zero is neither reported nor read. -/
theorem block_from_below_is_not_reported :
    ¬ ((∃ error, (blank 16).readBlock (-1) 2 = .error error) ∨
      ∃ block, (blank 16).readBlock (-1) 2 = .ok block ∧ (blank 16).ReadOut (-1) 2 block) := by
  have hr : (blank 16).readBlock (-1) 2 = .ok #[] := rfl
  rw [hr]
  rintro (⟨error, herror⟩ | ⟨block, hok, hout⟩)
  · cases herror
  · cases hok
    exact absurd hout.size_eq (by decide)

end Chip8.Memory
