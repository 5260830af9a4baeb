import Chip8.Instruction.Lookup
import Chip8.Proofs.Instruction.Table
import Mathlib.Data.Int.Bitwise
import Mathlib.Tactic.IntervalCases

/-!
# Looking up and reading at once

A look-up goes through the table of entries, by way of a masked opcode or of the
opcode as a whole. What it finds under the selector is what the fields of the
opcode say at once, and two keys are enough for that, although a look-up could be
sent round and round from other keys.
-/
namespace Chip8

namespace Fields

theorem lowWord_lt (opcode : Int) : lowWord opcode < 65536 := by
  unfold lowWord
  omega

/-- Masking an opcode looks at its low word only, whatever its sign and size. -/
theorem land_eq (opcode : Int) {mask : Nat} (h : mask < 65536) :
    Int.land opcode mask = (lowWord opcode &&& mask : Nat) := by
  have hmask (k : Nat) (hk : ¬ k < 16) : mask.testBit k = false := by
    have hle : 2 ^ 16 ≤ 2 ^ k := Nat.pow_le_pow_right (by decide) (Nat.not_lt.mp hk)
    exact Nat.testBit_lt_two_pow (Nat.lt_of_lt_of_le h hle)
  cases opcode with
  | ofNat n =>
      have hlow : lowWord (Int.ofNat n) = n % 2 ^ 16 := by
        unfold lowWord
        rw [Int.ofNat_eq_natCast]
        omega
      have hland : Int.land (Int.ofNat n) mask = (n &&& mask : Nat) := rfl
      rw [hland, hlow, Int.natCast_inj]
      apply Nat.eq_of_testBit_eq
      intro k
      rw [Nat.testBit_and, Nat.testBit_and, Nat.testBit_mod_two_pow]
      by_cases hk : k < 16
      · simp [hk]
      · simp [hmask k hk]
  | negSucc n =>
      have hlow : lowWord (Int.negSucc n) = 2 ^ 16 - (n % 2 ^ 16 + 1) := by
        unfold lowWord
        omega
      have hlt : n % 2 ^ 16 < 2 ^ 16 := Nat.mod_lt _ (by decide)
      have hland : Int.land (Int.negSucc n) mask = (Nat.ldiff mask n : Nat) := rfl
      rw [hland, hlow, Int.natCast_inj]
      apply Nat.eq_of_testBit_eq
      intro k
      rw [Nat.testBit_ldiff, Nat.testBit_and, Nat.testBit_two_pow_sub_succ hlt,
        Nat.testBit_mod_two_pow]
      by_cases hk : k < 16
      · simp [hk, Bool.and_comm]
      · simp [hmask k hk]

/-- Numbers that are cut after the same bits are masked part by part. -/
theorem and_parts {k a b r s : Nat} (hr : r < 2 ^ k) (hs : s < 2 ^ k) :
    (2 ^ k * a + r) &&& (2 ^ k * b + s) = 2 ^ k * (a &&& b) + (r &&& s) := by
  apply Nat.eq_of_testBit_eq
  intro j
  rw [Nat.testBit_and, Nat.testBit_two_pow_mul_add a hr, Nat.testBit_two_pow_mul_add b hs,
    Nat.testBit_two_pow_mul_add _ (Nat.and_lt_two_pow r hs)]
  by_cases hj : j < k
  · simp [hj]
  · simp [hj]

theorem masked_eq (opcode : Int) {k : Nat} (hk : k ≤ 12) :
    lowWord opcode &&& (0xF000 + (2 ^ k - 1)) =
      0x1000 * (ofOpcode opcode).op.val + lowWord opcode % 2 ^ k := by
  have hlt := lowWord_lt opcode
  have hop : (ofOpcode opcode).op.val = lowWord opcode / 2 ^ 12 := by
    show (Fin.ofNat 16 (lowWord opcode / 4096)).val = _
    rw [Fin.val_ofNat]
    omega
  have hsplit : lowWord opcode = 2 ^ 12 * (lowWord opcode / 2 ^ 12) + lowWord opcode % 2 ^ 12 :=
    (Nat.div_add_mod _ _).symm
  have hpow : 2 ^ k ≤ 2 ^ 12 := Nat.pow_le_pow_right (by decide) hk
  have hpos : 0 < 2 ^ k := Nat.two_pow_pos k
  calc
    lowWord opcode &&& (0xF000 + (2 ^ k - 1))
      = (2 ^ 12 * (lowWord opcode / 2 ^ 12) + lowWord opcode % 2 ^ 12) &&&
          (2 ^ 12 * (2 ^ 4 - 1) + (2 ^ k - 1)) := by rw [← hsplit]; rfl
    _ = 2 ^ 12 * (lowWord opcode / 2 ^ 12 % 2 ^ 4) + lowWord opcode % 2 ^ 12 % 2 ^ k := by
      rw [and_parts (Nat.mod_lt _ (by decide)) (by omega), Nat.and_two_pow_sub_one_eq_mod,
        Nat.and_two_pow_sub_one_eq_mod]
    _ = 0x1000 * (ofOpcode opcode).op.val + lowWord opcode % 2 ^ k := by
      rw [hop, Nat.mod_mod_of_dvd _ (Nat.pow_dvd_pow 2 hk)]
      omega

theorem masked_by_selector (opcode : Int) :
    lowWord opcode &&& 0xF000 = 0x1000 * (ofOpcode opcode).op.val := by
  have h := masked_eq opcode (k := 0) (by decide)
  rwa [Nat.pow_zero, Nat.mod_one, Nat.add_zero] at h

theorem masked_by_digit (opcode : Int) :
    lowWord opcode &&& 0xF00F =
      0x1000 * (ofOpcode opcode).op.val + (ofOpcode opcode).n.val :=
  masked_eq opcode (k := 4) (by decide)

theorem masked_by_byte (opcode : Int) :
    lowWord opcode &&& 0xF0FF =
      0x1000 * (ofOpcode opcode).op.val + (ofOpcode opcode).nn.toNat :=
  masked_eq opcode (k := 8) (by decide)

end Fields

namespace Instruction
variable {opcode : Int} {key limit : Nat}

theorem seek_of_none (h : listed? key = none) : seek opcode (limit + 1) key = some none := by
  rw [seek, h]

theorem seek_of_instruction {withFields : Fields → Instruction}
    (h : listed? key = some (.instruction withFields)) :
    seek opcode (limit + 1) key = some (some (withFields (Fields.ofOpcode opcode))) := by
  rw [seek, h]

theorem seek_of_masked {mask : Nat} (h : listed? key = some (.masked mask)) :
    seek opcode (limit + 1) key = seek opcode limit (Fields.lowWord opcode &&& mask) := by
  rw [seek, h]
  rfl

theorem seek_whole (opcode : Int) (limit : Nat) :
    seek opcode (limit + 1) 0x0 =
      if opcode < 0x10 then some none else seek opcode limit opcode.toNat := by
  rw [seek]
  simp only [listed?, Entry.nextKey?]
  by_cases hsmall : opcode < 0x10
  · simp [hsmall]
  · simp [hsmall]

theorem seek_of_selector_zero (h : (Fields.ofOpcode opcode).op.val = 0) :
    seek opcode (limit + 2) 0x0 =
      some (if opcode = 0x00E0 then some clear
        else if opcode = 0x00EE then some ret else none) := by
  have hselector : (opcode % 65536).toNat / 4096 % 16 = 0 := h
  rw [seek_whole]
  by_cases hclear : opcode = 0x00E0
  · subst hclear
    rw [seek]
    rfl
  · by_cases hret : opcode = 0x00EE
    · subst hret
      rw [seek]
      rfl
    · rw [if_neg hclear, if_neg hret]
      by_cases hsmall : opcode < 0x10
      · rw [if_pos hsmall]
      · rw [if_neg hsmall]
        apply seek_of_none
        unfold listed?
        split <;> first | rfl | omega

theorem seek_skipIfSame {n : Nat} (hn : n < 16) :
    seek opcode (limit + 1) (0x5000 + n) =
      some (if n = 0 then
        some (skipIfSame (Fields.ofOpcode opcode).x (Fields.ofOpcode opcode).y) else none) := by
  rw [seek]
  interval_cases n <;> rfl

theorem seek_arithmetic {n : Nat} (hn : n < 16) :
    seek opcode (limit + 1) (0x8000 + n) =
      some (arithmetic? (Fields.ofOpcode opcode).x (Fields.ofOpcode opcode).y n) := by
  rw [seek]
  interval_cases n <;> rfl

theorem seek_skipUnlessSame {n : Nat} (hn : n < 16) :
    seek opcode (limit + 1) (0x9000 + n) =
      some (if n = 0 then
        some (skipUnlessSame (Fields.ofOpcode opcode).x (Fields.ofOpcode opcode).y)
        else none) := by
  rw [seek]
  interval_cases n <;> rfl

theorem seek_key (k : UInt8) :
    seek opcode (limit + 1) (0xE000 + k.toNat) =
      some (if k = 0x9E then some (skipIfKey (Fields.ofOpcode opcode).x)
        else if k = 0xA1 then some (skipUnlessKey (Fields.ofOpcode opcode).x) else none) := by
  have hk := k.toNat_lt
  by_cases hdown : k = 0x9E
  · subst hdown
    rw [seek]
    rfl
  · by_cases hup : k = 0xA1
    · subst hup
      rw [seek]
      rfl
    · rw [if_neg hdown, if_neg hup]
      simp only [← UInt8.toNat_inj, UInt8.reduceToNat] at hdown hup
      apply seek_of_none
      unfold listed?
      split <;> first | rfl | omega

theorem seek_peripheral {k : Nat} (hk : k < 256) :
    seek opcode (limit + 1) (0xF000 + k) = some (peripheral? (Fields.ofOpcode opcode).x k) := by
  unfold peripheral?
  split <;> try (rw [seek]; rfl)
  apply seek_of_none
  simp only [imp_false] at *
  unfold listed?
  split <;> first | rfl | omega

/-- Under its selector an opcode is found to be what its fields say at once. -/
theorem seek_selector (opcode : Int) (limit : Nat) :
    seek opcode (limit + 2) (Fields.ofOpcode opcode).op.val = some (ofOpcode? opcode) := by
  have hdigit := Fields.masked_by_digit opcode
  have hbyte := Fields.masked_by_byte opcode
  have hop := (Fields.ofOpcode opcode).op.isLt
  unfold ofOpcode?
  dsimp only
  generalize hselector : (Fields.ofOpcode opcode).op.val = selector at hdigit hbyte hop ⊢
  interval_cases selector
  case «0» => exact seek_of_selector_zero hselector
  case «5» =>
      rw [seek_of_masked rfl, hdigit]
      exact seek_skipIfSame (Fin.isLt _)
  case «8» =>
      rw [seek_of_masked rfl, hdigit]
      exact seek_arithmetic (Fin.isLt _)
  case «9» =>
      rw [seek_of_masked rfl, hdigit]
      exact seek_skipUnlessSame (Fin.isLt _)
  case «14» =>
      rw [seek_of_masked rfl, hbyte]
      exact seek_key _
  case «15» =>
      rw [seek_of_masked rfl, hbyte]
      exact seek_peripheral (UInt8.toNat_lt _)
  -- The other selectors stand for an instruction.
  all_goals
    rw [seek]
    rfl

theorem find?_eq (opcode : Int) : find? opcode = ofOpcode? opcode := by
  unfold find?
  rw [seek_selector]
  rfl

end Instruction
end Chip8
