import Chip8.Number.Binary64
import Mathlib.Algebra.Order.Field.Power
import Mathlib.Data.Rat.Floor
import Mathlib.Tactic.Linarith

/-!
# What rounding leaves alone

The format holds the values of at most 53 bits at an exponent of at least -1074, as far as
they lie in its range. These are the values that rounding yields, and those that it leaves
as they are.

A value of the format that is not below zero can be split into its whole part and the rest
of it, and both are values of the format again. Below zero this is not so: the rest of a
tiny negative value is just short of one and has too many bits.
-/
namespace Chip8.Binary64
variable {q r : Rat}

structure Representable (q : Rat) : Prop where
  bits : ∃ m e : Int, |m| < 2 ^ 53 ∧ -1074 ≤ e ∧ q = m * 2 ^ e
  range : |q| < 2 ^ 1024

theorem ratAbs_eq (q : Rat) : q.abs = |q| := by
  rcases le_total 0 q with h | h
  · rw [Rat.abs_of_nonneg h, abs_of_nonneg h]
  · rw [Rat.abs_of_nonpos h, abs_of_nonpos h]

/-! ## The nearest integer -/

theorem floor_le_nearestEven (q : Rat) : ⌊q⌋ ≤ nearestEven q := by
  show q.floor ≤ nearestEven q
  unfold nearestEven
  dsimp only
  split_ifs <;> omega

theorem nearestEven_le (q : Rat) : nearestEven q ≤ ⌊q⌋ + 1 := by
  show nearestEven q ≤ q.floor + 1
  unfold nearestEven
  dsimp only
  split_ifs <;> omega

theorem nearestEven_intCast (n : Int) : nearestEven n = n := by
  unfold nearestEven
  simp

/-- Rounding to an integer passes over no integer. -/
theorem abs_nearestEven_le {n : Int} (h : |q| ≤ n) : |nearestEven q| ≤ n := by
  obtain ⟨hlow, hhigh⟩ := abs_le.mp h
  have hnonneg : 0 ≤ n := by exact_mod_cast (abs_nonneg q).trans h
  have hfloor : -n ≤ ⌊q⌋ := Int.le_floor.mpr (by exact_mod_cast hlow)
  have hbelow := floor_le_nearestEven q
  have habove := nearestEven_le q
  rcases eq_or_lt_of_le hhigh with rfl | hlt
  · rw [nearestEven_intCast, abs_of_nonneg hnonneg]
  · have hroom : ⌊q⌋ < n := Int.floor_lt.mpr hlt
    exact abs_le.mpr ⟨by omega, by omega⟩

theorem nearestEven_nonneg (h : 0 ≤ q) : 0 ≤ nearestEven q :=
  (Int.floor_nonneg.mpr h).trans (floor_le_nearestEven q)

/-! ## The grid -/

theorem two_zpow_pos (e : Int) : (0 : Rat) < 2 ^ e := zpow_pos two_pos e

theorem two_zpow_add (d e : Int) : (2 : Rat) ^ (d + e) = 2 ^ d * 2 ^ e :=
  zpow_add₀ two_ne_zero d e

theorem zpow_log2_le {n : Nat} (h : n ≠ 0) : (2 : Rat) ^ (n.log2 : Int) ≤ n := by
  rw [zpow_natCast]
  exact_mod_cast Nat.log2_self_le h

theorem lt_zpow_log2 (n : Nat) : (n : Rat) < 2 ^ ((n.log2 : Int) + 1) := by
  have hlt : n < 2 ^ (n.log2 + 1) := Nat.lt_log2_self
  have hcast : (n : Rat) < 2 ^ (n.log2 + 1) := by exact_mod_cast hlt
  exact_mod_cast hcast

/-- The exponent found from the lengths of numerator and denominator is that of the value. -/
theorem binaryExponent_bounds (h : q ≠ 0) :
    (2 : Rat) ^ binaryExponent q ≤ |q| ∧ |q| < 2 ^ (binaryExponent q + 1) := by
  have hden : (0 : Rat) < q.den := by exact_mod_cast q.den_pos
  have habs : |q| * q.den = q.num.natAbs := by
    rw [Rat.abs_def, Rat.divInt_eq_div]
    simp only [Int.cast_natCast]
    exact div_mul_cancel₀ _ hden.ne'
  have hnum := zpow_log2_le (Int.natAbs_ne_zero.mpr (Rat.num_ne_zero.mpr h))
  have hnum' := lt_zpow_log2 q.num.natAbs
  have hden' := lt_zpow_log2 q.den
  have hden'' := zpow_log2_le q.den_pos.ne'
  rw [← habs] at hnum hnum'
  -- The quotient of the two lengths is off by less than a factor of two on either side.
  have habove : |q| < 2 ^ ((q.num.natAbs.log2 : Int) - q.den.log2 + 1) := by
    refine lt_of_mul_lt_mul_right (hnum'.trans_le ?_) hden.le
    calc (2 : Rat) ^ ((q.num.natAbs.log2 : Int) + 1)
        = 2 ^ ((q.num.natAbs.log2 : Int) - q.den.log2 + 1) * 2 ^ (q.den.log2 : Int) := by
          rw [← two_zpow_add]
          congr 1
          omega
      _ ≤ _ := mul_le_mul_of_nonneg_left hden'' (two_zpow_pos _).le
  have hbelow : (2 : Rat) ^ ((q.num.natAbs.log2 : Int) - q.den.log2 - 1) ≤ |q| := by
    refine le_of_mul_le_mul_right (le_trans ?_ hnum) hden
    calc (2 : Rat) ^ ((q.num.natAbs.log2 : Int) - q.den.log2 - 1) * q.den
        ≤ 2 ^ ((q.num.natAbs.log2 : Int) - q.den.log2 - 1) * 2 ^ ((q.den.log2 : Int) + 1) :=
          mul_le_mul_of_nonneg_left hden'.le (two_zpow_pos _).le
      _ = _ := by
          rw [← two_zpow_add]
          congr 1
          omega
  unfold binaryExponent
  dsimp only
  rw [ratAbs_eq]
  split_ifs with hguess
  · rw [sub_add_cancel]
    exact ⟨hbelow, hguess⟩
  · exact ⟨not_lt.mp hguess, habove⟩

theorem le_gridExponent (q : Rat) : -1074 ≤ gridExponent q := by
  unfold gridExponent
  split_ifs <;> omega

/-- A value is at most so many steps of its grid that 53 bits count them. -/
theorem abs_le_steps (q : Rat) : |q| ≤ 2 ^ 53 * 2 ^ gridExponent q := by
  by_cases h : q = 0
  · rw [h, abs_zero]
    exact mul_nonneg (by norm_num) (two_zpow_pos _).le
  · have hgrid : binaryExponent q + 1 ≤ 53 + gridExponent q := by
      unfold gridExponent
      rw [if_neg h]
      omega
    calc |q| ≤ 2 ^ (binaryExponent q + 1) := (binaryExponent_bounds h).2.le
      _ ≤ 2 ^ (53 + gridExponent q) := zpow_le_zpow_right₀ one_le_two hgrid
      _ = 2 ^ 53 * 2 ^ gridExponent q := two_zpow_add 53 _

/-- Bits that would do for a value keep its grid from being coarser than they are. -/
theorem gridExponent_le {m e : Int} (hm : |m| < 2 ^ 53) (he : -1074 ≤ e)
    (h : (m : Rat) * 2 ^ e ≠ 0) : gridExponent ((m : Rat) * 2 ^ e) ≤ e := by
  have hm' : |(m : Rat)| < 2 ^ 53 := by exact_mod_cast hm
  have hpower : (2 : Rat) ^ binaryExponent ((m : Rat) * 2 ^ e) < 2 ^ (53 + e) :=
    calc (2 : Rat) ^ binaryExponent ((m : Rat) * 2 ^ e) ≤ |(m : Rat) * 2 ^ e| :=
          (binaryExponent_bounds h).1
      _ = |(m : Rat)| * 2 ^ e := by rw [abs_mul, abs_of_pos (two_zpow_pos e)]
      _ < 2 ^ 53 * 2 ^ e := mul_lt_mul_of_pos_right hm' (two_zpow_pos e)
      _ = 2 ^ (53 + e) := (two_zpow_add 53 e).symm
  have hexponent := (zpow_lt_zpow_iff_right₀ one_lt_two).mp hpower
  unfold gridExponent
  rw [if_neg h]
  omega

/-! ## Values of the format -/

/-- One step more than 53 bits count is a value with a higher exponent. -/
theorem representable_of_steps {m e : Int} (hm : |m| ≤ 2 ^ 53) (he : -1074 ≤ e)
    (hrange : |(m : Rat) * 2 ^ e| < 2 ^ 1024) : Representable ((m : Rat) * 2 ^ e) := by
  rcases lt_or_eq_of_le hm with hlt | heq
  · exact ⟨⟨m, e, hlt, he, rfl⟩, hrange⟩
  · have heven : m = 2 * (m / 2) := by
      rcases eq_or_eq_neg_of_abs_eq heq with rfl | rfl <;> norm_num
    refine ⟨⟨m / 2, e + 1, ?_, by omega, ?_⟩, hrange⟩
    · rcases eq_or_eq_neg_of_abs_eq heq with rfl | rfl <;> norm_num
    · have hcast : (m : Rat) = 2 * (m / 2 : Int) := by exact_mod_cast heven
      rw [hcast, two_zpow_add, zpow_one]
      ring

theorem representable_of_round (h : round q = finite r) : Representable r := by
  unfold round at h
  dsimp only at h
  split_ifs at h with hrange
  cases h
  rw [ratAbs_eq] at hrange
  have hsteps : |q / 2 ^ gridExponent q| ≤ (2 ^ 53 : Int) := by
    rw [abs_div, abs_of_pos (two_zpow_pos _), div_le_iff₀ (two_zpow_pos _)]
    exact_mod_cast abs_le_steps q
  exact representable_of_steps (abs_nearestEven_le hsteps) (le_gridExponent q) hrange

theorem onGrid_of_representable (h : Representable q) : onGrid q = q := by
  obtain ⟨m, e, hm, he, rfl⟩ := h.bits
  by_cases hzero : (m : Rat) * 2 ^ e = 0
  · have hnearest : nearestEven 0 = 0 := nearestEven_intCast 0
    rw [hzero]
    unfold onGrid
    dsimp only
    rw [zero_div, hnearest, Int.cast_zero, zero_mul]
  · have hgrid := gridExponent_le hm he hzero
    have hstep := two_zpow_pos (gridExponent ((m : Rat) * 2 ^ e))
    have hwhole : (m : Rat) * 2 ^ e / 2 ^ gridExponent ((m : Rat) * 2 ^ e) =
        (m * 2 ^ (e - gridExponent ((m : Rat) * 2 ^ e)).toNat : Int) := by
      rw [mul_div_assoc, ← zpow_sub₀ two_ne_zero]
      push_cast
      rw [← zpow_natCast, Int.toNat_of_nonneg (by omega)]
    unfold onGrid
    dsimp only
    rw [hwhole, nearestEven_intCast, ← hwhole, div_mul_cancel₀ _ hstep.ne']

/-- Rounding leaves the values of the format alone, and no others. -/
theorem round_eq_self_iff : round q = finite q ↔ Representable q := by
  constructor
  · exact representable_of_round
  · intro h
    unfold round
    dsimp only
    rw [onGrid_of_representable h, ratAbs_eq, if_pos h.range]

theorem nonneg_of_round (hq : 0 ≤ q) (h : round q = finite r) : 0 ≤ r := by
  unfold round at h
  dsimp only at h
  split_ifs at h
  cases h
  have hstep := two_zpow_pos (gridExponent q)
  have hwhole := nearestEven_nonneg (div_nonneg hq hstep.le)
  unfold onGrid
  dsimp only
  exact mul_nonneg (by exact_mod_cast hwhole) hstep.le

theorem representable_intCast {n : Int} (h : |n| ≤ 2 ^ 53) : Representable n := by
  have hcast : |(n : Rat)| ≤ 2 ^ 53 := by exact_mod_cast h
  have hrange : |(n : Rat) * 2 ^ (0 : Int)| < 2 ^ 1024 := by
    rw [zpow_zero, mul_one]
    exact hcast.trans_lt (pow_lt_pow_right₀ one_lt_two (by decide))
  have hsteps := representable_of_steps h (by norm_num) hrange
  rwa [zpow_zero, mul_one] at hsteps

theorem representable_zero : Representable 0 := by
  exact_mod_cast representable_intCast (n := 0) (by norm_num)

/-- Of a number of bits with `k` of them below the point, the whole part and the rest. -/
theorem floor_bits (m : Int) (k : Nat) :
    ⌊(m : Rat) * 2 ^ (-k : Int)⌋ = m / 2 ^ k ∧
      (m : Rat) * 2 ^ (-k : Int) - (m / 2 ^ k : Int) = (m % 2 ^ k : Int) * 2 ^ (-k : Int) := by
  have hscale : (2 : Rat) ^ (-k : Int) = ((2 ^ k : Nat) : Rat)⁻¹ := by
    rw [zpow_neg, zpow_natCast, Nat.cast_pow, Nat.cast_ofNat]
  constructor
  · rw [hscale, ← div_eq_mul_inv, Rat.floor_intCast_div_natCast, Nat.cast_pow, Nat.cast_ofNat]
  · have hsplit : (m : Rat) = 2 ^ k * (m / 2 ^ k : Int) + (m % 2 ^ k : Int) := by
      exact_mod_cast (Int.mul_ediv_add_emod m (2 ^ k)).symm
    have hunit : (2 : Rat) ^ k * 2 ^ (-k : Int) = 1 := by
      rw [← zpow_natCast, ← two_zpow_add, add_neg_cancel, zpow_zero]
    nth_rewrite 1 [hsplit]
    rw [add_mul, mul_right_comm, hunit, one_mul, add_sub_cancel_left]

/-- The whole part of a value and the rest of it are both values of the format. -/
theorem Representable.floor_and_rest (h : Representable q) (hq : 0 ≤ q) :
    Representable ⌊q⌋ ∧ Representable (q - ⌊q⌋) := by
  obtain ⟨m, e, hm, he, rfl⟩ := h.bits
  by_cases hexponent : 0 ≤ e
  · have hwhole : (m : Rat) * 2 ^ e = (m * 2 ^ e.toNat : Int) := by
      push_cast
      rw [← zpow_natCast, Int.toNat_of_nonneg hexponent]
    rw [hwhole] at h ⊢
    rw [Int.floor_intCast, sub_self]
    exact ⟨h, representable_zero⟩
  · obtain ⟨k, rfl⟩ : ∃ k : Nat, e = -k := ⟨(-e).toNat, by omega⟩
    obtain ⟨hfloor, hrest⟩ := floor_bits m k
    have hpos : (0 : Int) < 2 ^ k := Int.pow_pos (by decide)
    have hnonneg : 0 ≤ m := by exact_mod_cast nonneg_of_mul_nonneg_left hq (two_zpow_pos _)
    have hquotient := Int.ediv_nonneg hnonneg hpos.le
    have hremainder := Int.emod_nonneg m hpos.ne'
    rw [abs_of_nonneg hnonneg] at hm
    constructor
    · have hle : m / 2 ^ k ≤ m := Int.ediv_le_self _ hnonneg
      rw [hfloor]
      apply representable_intCast
      rw [abs_of_nonneg hquotient]
      exact hle.trans hm.le
    · have hle : m % 2 ^ k ≤ m := by
        have hmultiple := mul_nonneg hpos.le hquotient
        rw [Int.emod_def]
        linarith
      refine ⟨⟨m % 2 ^ k, -k, ?_, he, by rw [hfloor, hrest]⟩, ?_⟩
      · rw [abs_of_nonneg hremainder]
        exact hle.trans_lt hm
      · have hone : (1 : Rat) < 2 ^ 1024 := one_lt_pow₀ one_lt_two (by decide)
        rw [Int.self_sub_floor, abs_of_nonneg (Int.fract_nonneg _)]
        exact (Int.fract_lt_one _).trans hone

end Chip8.Binary64
