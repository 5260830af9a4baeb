import Chip8.Pacer
import Chip8.Proofs.Number.Rounding

/-!
# Budgets

A budget is rounded when it is computed, but splitting it into whole instructions and a
carry loses nothing: the count and the carry add up to the budget. So the carry is never
below zero and always less than one instruction, whatever the clock speed and the elapsed
times. A call without a result leaves the pacer as it was.
-/
namespace Chip8
open Binary64 (Representable)

namespace Binary64
variable {x y : Binary64} {q : Rat}

/-- A number that is not below zero, or not finite. -/
def NonNeg (x : Binary64) : Prop := ∀ q, x = finite q → 0 ≤ q

theorem nonneg_finite (h : 0 ≤ q) : (finite q).NonNeg := by
  rintro _ ⟨⟩
  exact h

theorem nonneg_round (h : 0 ≤ q) : (round q).NonNeg := fun _ hr => nonneg_of_round h hr

theorem NonNeg.mul (hx : x.NonNeg) (hy : y.NonNeg) : (x.mul y).NonNeg := by
  cases x with
  | nan => exact nofun
  | infinite s =>
      cases y with
      | finite b =>
          unfold Binary64.mul
          dsimp only
          split <;> exact nofun
      | infinite t => exact nofun
      | nan => exact nofun
  | finite a =>
      cases y with
      | finite b => exact nonneg_round (mul_nonneg (hx a rfl) (hy b rfl))
      | infinite t =>
          unfold Binary64.mul
          dsimp only
          split <;> exact nofun
      | nan => exact nofun

/-- A finite sum is the rounded sum of finite numbers. -/
theorem eq_of_add_eq_finite (h : x.add y = finite q) :
    ∃ a b, x = finite a ∧ y = finite b ∧ round (a + b) = finite q := by
  cases x with
  | nan => cases h
  | infinite s =>
      cases y with
      | infinite t =>
          unfold Binary64.add at h
          dsimp only at h
          split at h <;> cases h
      | finite b => cases h
      | nan => cases h
  | finite a =>
      cases y with
      | finite b => exact ⟨a, b, rfl, rfl, h⟩
      | infinite t => cases h
      | nan => cases h

end Binary64

namespace Number
variable {a b c : Number} {x y : Binary64}

/-- Two computations, one after the other, have a result if each of them has. -/
theorem bind_eq_ok_iff {α β : Type} {first : Except Error α} {next : α → Except Error β} {b : β} :
    first >>= next = .ok b ↔ ∃ a, first = .ok a ∧ next a = .ok b := by
  constructor
  · intro h
    cases first with
    | error e => cases h
    | ok a => exact ⟨a, rfl, h⟩
  · rintro ⟨a, rfl, h⟩
    exact h

theorem addFloat_eq_ok_iff : a.addFloat y = .ok x ↔ ∃ z, a.toBinary64 = .ok z ∧ z.add y = x := by
  unfold addFloat
  rw [bind_eq_ok_iff]
  simp only [pure, Except.pure, Except.ok.injEq]

/-- A product is exact among integers, and is otherwise computed as binary64 numbers. -/
theorem mul_eq_ok (h : a.mul b = .ok c) :
    (∃ m n, a = int m ∧ b = int n ∧ c = int (m * n)) ∨
      ∃ x y, a.toBinary64 = .ok x ∧ b.toBinary64 = .ok y ∧ c = float (x.mul y) := by
  have hfloat (h : (a.toBinary64 >>= fun x => b.toBinary64 >>= fun y => pure (float (x.mul y))) =
      .ok c) :
      ∃ x y, a.toBinary64 = .ok x ∧ b.toBinary64 = .ok y ∧ c = float (x.mul y) := by
    obtain ⟨x, hx, h⟩ := bind_eq_ok_iff.mp h
    obtain ⟨y, hy, h⟩ := bind_eq_ok_iff.mp h
    exact ⟨x, y, hx, hy, (Except.ok.inj h).symm⟩
  cases a with
  | float x => exact .inr (hfloat h)
  | int m =>
      cases b with
      | float y => exact .inr (hfloat h)
      | int n =>
          cases h
          exact .inl ⟨m, n, rfl, rfl, rfl⟩

theorem mul_float (hx : a.toBinary64 = .ok x) : a.mul (float y) = .ok (float (x.mul y)) := by
  have hmul : a.mul (float y) = a.toBinary64 >>= fun x => pure (float (x.mul y)) := by
    cases a <;> rfl
  rw [hmul, bind_eq_ok_iff]
  exact ⟨x, hx, rfl⟩

theorem nonneg_toBinary64 (ha : a.exact.NonNeg) (h : a.toBinary64 = .ok x) : x.NonNeg := by
  cases a with
  | float y =>
      cases h
      exact ha
  | int n =>
      have hn : (0 : Rat) ≤ n := ha n rfl
      unfold toBinary64 at h
      dsimp only at h
      split at h
      · rename_i q hround
        cases h
        exact Binary64.nonneg_finite (Binary64.nonneg_of_round hn hround)
      · cases h

theorem nonneg_mul (ha : a.exact.NonNeg) (hb : b.exact.NonNeg) (h : a.mul b = .ok c) :
    c.exact.NonNeg := by
  rcases mul_eq_ok h with ⟨m, n, rfl, rfl, rfl⟩ | ⟨x, y, hx, hy, rfl⟩
  · have hm : (0 : Rat) ≤ m := ha m rfl
    have hn : (0 : Rat) ≤ n := hb n rfl
    refine Binary64.nonneg_finite ?_
    rw [Int.cast_mul]
    exact mul_nonneg hm hn
  · exact (nonneg_toBinary64 ha hx).mul (nonneg_toBinary64 hb hy)

theorem nonneg_clampNegative (a : Number) : a.clampNegative.exact.NonNeg := by
  unfold clampNegative
  split
  · rename_i hpositive
    intro q hq
    unfold lt at hpositive
    rw [hq] at hpositive
    exact (of_decide_eq_true hpositive).le
  · exact Binary64.nonneg_finite le_rfl

/-- A number that is negative, zero or not a number counts as no time at all. -/
theorem clampNegative_eq_zero
    (h : a.exact.lt .zero = true ∨ a.exact = .zero ∨ a.exact = .nan) :
    a.clampNegative = .float .zero := by
  unfold clampNegative lt
  refine if_neg ?_
  rcases h with hneg | hzero | hnan
  · cases hexact : a.exact with
    | finite q =>
        rw [hexact] at hneg
        have hq : q < 0 := of_decide_eq_true hneg
        exact fun hpos => absurd (of_decide_eq_true hpos) hq.not_gt
    | infinite s =>
        rw [hexact] at hneg
        cases hneg
        exact nofun
    | nan => exact nofun
  · rw [hzero]
    decide
  · rw [hnan]
    exact nofun

end Number

namespace Pacer
variable {p new : Pacer} {speed elapsed : Number} {c r b : Rat}

theorem ofClockSpeed?_eq_some_iff :
    ofClockSpeed? speed = some p ↔ speed.le (.int 0) = false ∧ p = ⟨speed, .zero⟩ := by
  unfold ofClockSpeed?
  split
  · simp [*]
  · simp [*, eq_comm]

/-- What is carried is a value of the format and less than one instruction. -/
def CarriesPart (p : Pacer) : Prop :=
  ∃ q, p.carry = .finite q ∧ Representable q ∧ 0 ≤ q ∧ q < 1

structure Sound (p : Pacer) : Prop where
  speed : p.clockSpeed.exact.NonNeg
  carry : p.CarriesPart

theorem sound_of_ofClockSpeed? (h : ofClockSpeed? speed = some p) : p.Sound := by
  obtain ⟨hpositive, rfl⟩ := ofClockSpeed?_eq_some_iff.mp h
  constructor
  case speed =>
    intro q hq
    have hq' : speed.exact = .finite q := hq
    unfold Number.le at hpositive
    rw [hq'] at hpositive
    have hlt : ¬ q ≤ (0 : Int) := of_decide_eq_false hpositive
    exact_mod_cast (not_le.mp hlt).le
  case carry =>
    exact ⟨0, rfl, Binary64.representable_zero, le_rfl, one_pos⟩

theorem budget_eq_ok_iff {x : Binary64} :
    p.budget elapsed = .ok x ↔
      ∃ product, p.clockSpeed.mul elapsed.clampNegative = .ok product ∧
        product.addFloat p.carry = .ok x :=
  Number.bind_eq_ok_iff

/-- A finite budget is a sum that was rounded, and no part of the sum is below zero. -/
theorem Sound.of_budget (h : p.Sound) (hbudget : p.budget elapsed = .ok (.finite b)) :
    0 ≤ b ∧ Representable b := by
  obtain ⟨r, hr, -, hr0, -⟩ := h.carry
  obtain ⟨product, hproduct, hsum⟩ := budget_eq_ok_iff.mp hbudget
  obtain ⟨x, hx, hadd⟩ := Number.addFloat_eq_ok_iff.mp hsum
  obtain ⟨a, r', rfl, hr', hround⟩ := Binary64.eq_of_add_eq_finite hadd
  obtain rfl : r = r' := Binary64.finite.inj (hr.symm.trans hr')
  have hnonneg := Number.nonneg_mul h.speed (Number.nonneg_clampNegative elapsed) hproduct
  have ha : 0 ≤ a := Number.nonneg_toBinary64 hnonneg hx a rfl
  exact ⟨Binary64.nonneg_of_round (add_nonneg ha hr0) hround,
    Binary64.representable_of_round hround⟩

/-- The pacer that carries what a budget leaves over. -/
def carrying (p : Pacer) (q : Rat) : Pacer := { p with carry := .finite q }

theorem instructionsFor_apply (p : Pacer) (elapsed : Number) :
    instructionsFor elapsed p =
      match p.budget elapsed with
      | .error e => .error e p
      | .ok budget =>
          match budget.wholePart with
          | .error e => .error e p
          | .ok count => .ok count { p with carry := budget.sub (Binary64.round count) } := by
  show EStateM.bind (ofExcept (p.budget elapsed)) _ p = _
  cases p.budget elapsed with
  | error e => rfl
  | ok budget =>
      show EStateM.bind (ofExcept budget.wholePart) _ p = _
      dsimp only
      cases budget.wholePart <;> rfl

/-- A call without a result carries over what was carried before it. -/
theorem eq_of_instructionsFor_eq_error {e : Number.Error} {left : Pacer}
    (h : instructionsFor elapsed p = .error e left) : left = p := by
  rw [instructionsFor_apply] at h
  cases hbudget : p.budget elapsed with
  | error e =>
      rw [hbudget] at h
      cases h
      rfl
  | ok budget =>
      simp only [hbudget] at h
      split at h <;> cases h
      rfl

/-- Neither the whole part of a budget nor the rest of it is rounded. -/
theorem instructionsFor_of_budget (hbudget : p.budget elapsed = .ok (.finite b)) (hb : 0 ≤ b)
    (hformat : Representable b) :
    instructionsFor elapsed p = .ok ⌊b⌋ (p.carrying (b - ⌊b⌋)) := by
  obtain ⟨hwhole, hrest⟩ := hformat.floor_and_rest hb
  have hsub : (Binary64.finite b).sub (Binary64.round ⌊b⌋) = .finite (b - ⌊b⌋) := by
    rw [Binary64.round_eq_self_iff.mpr hwhole]
    show Binary64.round (b + -⌊b⌋) = _
    rw [← sub_eq_add_neg, Binary64.round_eq_self_iff.mpr hrest]
  rw [instructionsFor_apply, hbudget]
  show EStateM.Result.ok ⌊b⌋ { p with carry := (Binary64.finite b).sub (Binary64.round ⌊b⌋) } = _
  rw [hsub]
  rfl

theorem Sound.carrying (h : p.Sound) (hb : 0 ≤ b) (hformat : Representable b) :
    (p.carrying (b - ⌊b⌋)).Sound where
  speed := h.speed
  carry := ⟨b - ⌊b⌋, rfl, (hformat.floor_and_rest hb).2, Int.fract_nonneg b, Int.fract_lt_one b⟩

/-- A call has a result exactly if the budget is finite. -/
theorem Sound.instructionsFor_eq_ok_iff (h : p.Sound) {count : Int} {later : Pacer} :
    instructionsFor elapsed p = .ok count later ↔
      ∃ b, p.budget elapsed = .ok (.finite b) ∧ count = ⌊b⌋ ∧ later = p.carrying (b - ⌊b⌋) := by
  constructor
  · intro hcall
    cases hbudget : p.budget elapsed with
    | error e =>
        rw [instructionsFor_apply, hbudget] at hcall
        cases hcall
    | ok budget =>
        cases budget with
        | finite b =>
            obtain ⟨hb, hformat⟩ := h.of_budget hbudget
            rw [instructionsFor_of_budget hbudget hb hformat] at hcall
            cases hcall
            exact ⟨b, rfl, rfl, rfl⟩
        | infinite s | nan =>
            rw [instructionsFor_apply, hbudget] at hcall
            cases hcall
  · rintro ⟨b, hbudget, rfl, rfl⟩
    obtain ⟨hb, hformat⟩ := h.of_budget hbudget
    exact instructionsFor_of_budget hbudget hb hformat

def after (p : Pacer) (elapsed : Number) : Pacer :=
  match instructionsFor elapsed p with
  | .ok _ later => later
  | .error _ left => left

def afterAll (p : Pacer) (elapsed : List Number) : Pacer := elapsed.foldl after p

theorem after_of_ok {count : Int} {later : Pacer}
    (h : instructionsFor elapsed p = .ok count later) : p.after elapsed = later := by
  unfold after
  rw [h]

theorem after_of_error {e : Number.Error} {left : Pacer}
    (h : instructionsFor elapsed p = .error e left) : p.after elapsed = p := by
  unfold after
  rw [h]
  exact eq_of_instructionsFor_eq_error h

theorem Sound.after (h : p.Sound) (elapsed : Number) :
    (p.after elapsed).Sound ∧ (p.after elapsed).clockSpeed = p.clockSpeed := by
  cases hcall : instructionsFor elapsed p with
  | error e left =>
      rw [after_of_error hcall]
      exact ⟨h, rfl⟩
  | ok count later =>
      obtain ⟨b, hbudget, -, rfl⟩ := h.instructionsFor_eq_ok_iff.mp hcall
      obtain ⟨hb, hformat⟩ := h.of_budget hbudget
      rw [after_of_ok hcall]
      exact ⟨h.carrying hb hformat, rfl⟩

theorem Sound.afterAll (h : p.Sound) (elapsed : List Number) :
    (p.afterAll elapsed).Sound ∧ (p.afterAll elapsed).clockSpeed = p.clockSpeed := by
  induction elapsed generalizing p with
  | nil => exact ⟨h, rfl⟩
  | cons e elapsed ih =>
      obtain ⟨hfirst, hspeed⟩ := h.after e
      obtain ⟨hall, hspeeds⟩ := ih hfirst
      exact ⟨hall, hspeeds.trans hspeed⟩

/-- Where no time passes, nothing is executed and the carry stays. -/
theorem Sound.instructionsFor_of_no_time (h : p.Sound)
    (hspeed : p.clockSpeed.toBinary64 = .ok (.finite c))
    (hnone : elapsed.clampNegative = .float .zero) : instructionsFor elapsed p = .ok 0 p := by
  obtain ⟨r, hr, hformat, hr0, hr1⟩ := h.carry
  have hzero : (Binary64.finite c).mul .zero = .zero := by
    show Binary64.round (c * 0) = .finite 0
    rw [mul_zero, Binary64.round_eq_self_iff.mpr Binary64.representable_zero]
  have hcarry : Binary64.zero.add p.carry = .finite r := by
    rw [hr]
    show Binary64.round (0 + r) = .finite r
    rw [zero_add, Binary64.round_eq_self_iff.mpr hformat]
  have hbudget : p.budget elapsed = .ok (.finite r) := by
    refine budget_eq_ok_iff.mpr ⟨.float .zero, ?_, ?_⟩
    · rw [hnone, Number.mul_float hspeed, hzero]
    · exact Number.addFloat_eq_ok_iff.mpr ⟨.zero, rfl, hcarry⟩
  have hfloor : ⌊r⌋ = 0 := Int.floor_eq_zero_iff.mpr ⟨hr0, hr1⟩
  rw [instructionsFor_of_budget hbudget hr0 hformat, hfloor, Int.cast_zero, sub_zero]
  unfold Pacer.carrying
  rw [← hr]

/-- However long a pacer has been in use, it carries less than one instruction. A call that
has a result splits the budget without loss, and one that has none changes nothing. -/
theorem budget_is_split_without_loss (hnew : ofClockSpeed? speed = some new)
    (earlier : List Number) (elapsed : Number) :
    let p := new.afterAll earlier
    p.clockSpeed = speed ∧ p.CarriesPart ∧
      (∀ count later, instructionsFor elapsed p = .ok count later →
        p.after elapsed = later ∧ 0 ≤ count ∧
          ∃ budget rest, p.budget elapsed = .ok (.finite budget) ∧
            later.carry = .finite rest ∧ count + rest = budget) ∧
      (∀ e left, instructionsFor elapsed p = .error e left →
        left = p ∧ p.after elapsed = p ∧ ∀ budget, p.budget elapsed ≠ .ok (.finite budget)) ∧
      ∀ c, speed.toBinary64 = .ok (.finite c) →
        elapsed.exact.lt .zero = true ∨ elapsed.exact = .zero ∨ elapsed.exact = .nan →
        instructionsFor elapsed p = .ok 0 p := by
  intro p
  obtain ⟨hp, hspeed⟩ := (sound_of_ofClockSpeed? hnew).afterAll earlier
  replace hspeed : p.clockSpeed = speed := by
    rw [hspeed, (ofClockSpeed?_eq_some_iff.mp hnew).2]
  refine ⟨hspeed, hp.carry, ?_, ?_, ?_⟩
  · intro count later hcall
    obtain ⟨b, hbudget, rfl, rfl⟩ := hp.instructionsFor_eq_ok_iff.mp hcall
    have hcount : 0 ≤ ⌊b⌋ := Int.floor_nonneg.mpr (hp.of_budget hbudget).1
    exact ⟨after_of_ok hcall, hcount, b, b - ⌊b⌋, hbudget, rfl, by ring⟩
  · intro e left hcall
    refine ⟨eq_of_instructionsFor_eq_error hcall, after_of_error hcall, ?_⟩
    intro b hbudget
    cases hcall.symm.trans (hp.instructionsFor_eq_ok_iff.mpr ⟨b, hbudget, rfl, rfl⟩)
  · intro c hc hnone
    exact hp.instructionsFor_of_no_time (hspeed ▸ hc) (Number.clampNegative_eq_zero hnone)

/-- A pacer stays in use after calls that had no result: here one that is asked for too many
instructions, and one whose time is not a number. -/
theorem budget_after_failures_is_split :
    let p := afterAll ⟨.int 700, .zero⟩ [.float (.finite (1 / 64)), .int (10 ^ 400), .float .nan]
    p.CarriesPart ∧
      instructionsFor (.float (.finite (1 / 64))) p = .ok 11 ⟨.int 700, .finite (7 / 8)⟩ ∧
      p.budget (.float (.finite (1 / 64))) = .ok (.finite (95 / 8)) := by
  intro p
  have hnew : ofClockSpeed? (.int 700) = some ⟨.int 700, .zero⟩ := by decide
  obtain ⟨-, hcarry, hsplit, -⟩ := budget_is_split_without_loss hnew
    [.float (.finite (1 / 64)), .int (10 ^ 400), .float .nan] (.float (.finite (1 / 64)))
  have hcall : instructionsFor (.float (.finite (1 / 64))) p =
      .ok 11 ⟨.int 700, .finite (7 / 8)⟩ := by decide +kernel
  obtain ⟨-, -, budget, rest, hbudget, hrest, hsum⟩ := hsplit _ _ hcall
  cases hrest
  refine ⟨hcarry, hcall, hbudget.trans ?_⟩
  rw [← hsum]
  norm_num

end Pacer
end Chip8
