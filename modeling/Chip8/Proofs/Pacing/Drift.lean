import Chip8.Proofs.Pacing.Budget
import Mathlib.Algebra.BigOperators.Group.List.Basic

/-!
# Pacing without drift

As long as no product and no sum is rounded, a pacer loses nothing. The counts of several
calls add up to what their whole time pays for, and what is carried over in the end is the
part of an instruction that is left. Neither depends on how the time is divided among the
calls, nor on their order. Time that runs backwards counts as none.
-/
namespace Chip8

/-- The time that has passed; backwards there is none. -/
def Number.forward (elapsed : Number) : Rat :=
  match elapsed.exact with
  | .finite q => max 0 q
  | _ => 0

namespace Pacer
variable {p new : Pacer} {speed elapsed : Number} {c r : Rat}

/-- The counts of several calls, if they all have a result. -/
def instructionsForEach : List Number → EStateM Number.Error Pacer (List Int)
  | [] => pure []
  | e :: elapsed => do
      let count ← instructionsFor e
      let counts ← instructionsForEach elapsed
      pure (count :: counts)

theorem instructionsForEach_cons_eq_ok_iff {e : Number} {elapsed : List Number}
    {counts : List Int} {last : Pacer} :
    instructionsForEach (e :: elapsed) p = .ok counts last ↔
      ∃ count later counts', instructionsFor e p = .ok count later ∧
        instructionsForEach elapsed later = .ok counts' last ∧ counts = count :: counts' := by
  simp only [instructionsForEach, bind, EStateM.bind]
  cases instructionsFor e p with
  | error e left => simp
  | ok count later =>
      dsimp only
      cases hrest : instructionsForEach elapsed later with
      | error e left => simp [hrest]
      | ok counts' last' => simp [hrest, pure, EStateM.pure, eq_comm, and_comm]

/-- Neither the product nor the sum of a call is rounded: both are those of the exact values. -/
def PaysExactly (p : Pacer) (elapsed : Number) : Prop :=
  ∃ c r product, p.clockSpeed.exact = .finite c ∧ p.carry = .finite r ∧
    p.clockSpeed.mul elapsed.clampNegative = .ok product ∧
    product.exact = .finite (c * elapsed.forward) ∧
    product.addFloat p.carry = .ok (.finite (c * elapsed.forward + r))

/-- No call of several rounds, each of them made on the pacer that those before it left. -/
def PaysExactlyAlong (p : Pacer) (elapsed : List Number) : Prop :=
  ∀ earlier e later, elapsed = earlier ++ e :: later → (p.afterAll earlier).PaysExactly e

theorem paysExactlyAlong_nil (p : Pacer) : p.PaysExactlyAlong [] := by
  intro earlier e later h
  cases earlier <;> cases h

theorem paysExactlyAlong_cons_iff {e : Number} {elapsed : List Number} :
    p.PaysExactlyAlong (e :: elapsed) ↔
      p.PaysExactly e ∧ (p.after e).PaysExactlyAlong elapsed := by
  constructor
  · intro h
    refine ⟨h [] e elapsed rfl, ?_⟩
    rintro earlier e' later rfl
    exact h (e :: earlier) e' later rfl
  · rintro ⟨hfirst, hlater⟩ earlier e' later h
    cases earlier with
    | nil =>
        cases h
        exact hfirst
    | cons e'' earlier =>
        cases h
        exact hlater earlier e' later rfl

def totalTime (elapsed : List Number) : Rat := (elapsed.map Number.forward).sum

theorem totalTime_cons (e : Number) (elapsed : List Number) :
    totalTime (e :: elapsed) = e.forward + totalTime elapsed := List.sum_cons

theorem PaysExactly.budget_eq (h : p.PaysExactly elapsed)
    (hspeed : p.clockSpeed.exact = .finite c) (hcarry : p.carry = .finite r) :
    p.budget elapsed = .ok (.finite (c * elapsed.forward + r)) := by
  obtain ⟨c', r', product, hc, hr, hproduct, -, hsum⟩ := h
  obtain rfl := Binary64.finite.inj (hspeed.symm.trans hc)
  obtain rfl := Binary64.finite.inj (hcarry.symm.trans hr)
  exact budget_eq_ok_iff.mpr ⟨product, hproduct, hsum⟩

/-- Without rounding, what several calls count and what they carry over add up to what the
pacer carried before them and what the time pays for. -/
theorem Sound.instructionsForEach_eq (h : p.Sound) (hspeed : p.clockSpeed.exact = .finite c)
    (hcarry : p.carry = .finite r) {elapsed : List Number} (hexact : p.PaysExactlyAlong elapsed) :
    let paid := c * totalTime elapsed + r
    ∃ counts, instructionsForEach elapsed p = .ok counts (p.carrying (paid - ⌊paid⌋)) ∧
      counts.length = elapsed.length ∧ counts.sum = ⌊paid⌋ := by
  -- What one call carries over takes the place of `r` in the calls after it.
  induction elapsed generalizing p r with
  | nil =>
      obtain ⟨r', hr, -, hr0, hr1⟩ := h.carry
      obtain rfl := Binary64.finite.inj (hcarry.symm.trans hr)
      have hpaid : c * totalTime [] + r = r := by
        rw [totalTime, List.map_nil, List.sum_nil, mul_zero, zero_add]
      have hfloor : ⌊r⌋ = 0 := Int.floor_eq_zero_iff.mpr ⟨hr0, hr1⟩
      refine ⟨[], ?_, rfl, ?_⟩
      · rw [hpaid, hfloor, Int.cast_zero, sub_zero, Pacer.carrying, ← hcarry]
        rfl
      · rw [hpaid, hfloor]
        rfl
  | cons e elapsed ih =>
      obtain ⟨hfirst, hlater⟩ := paysExactlyAlong_cons_iff.mp hexact
      have hbudget := hfirst.budget_eq hspeed hcarry
      obtain ⟨hb, hformat⟩ := h.of_budget hbudget
      have hcall := instructionsFor_of_budget hbudget hb hformat
      rw [after_of_ok hcall] at hlater
      obtain ⟨counts, hcounts, hlength, hsum⟩ := ih (h.carrying hb hformat) hspeed rfl hlater
      have hpaid : c * totalTime elapsed + (c * e.forward + r - ⌊c * e.forward + r⌋) =
          c * totalTime (e :: elapsed) + r - ⌊c * e.forward + r⌋ := by
        rw [totalTime_cons]
        ring
      rw [hpaid, Int.floor_sub_intCast] at hcounts hsum
      refine ⟨⌊c * e.forward + r⌋ :: counts, ?_, ?_, ?_⟩
      · refine instructionsForEach_cons_eq_ok_iff.mpr ⟨_, _, _, hcall, hcounts.trans ?_, rfl⟩
        unfold Pacer.carrying
        push_cast
        rw [sub_sub_sub_cancel_right]
      · rw [List.length_cons, List.length_cons, hlength]
      · rw [List.sum_cons, hsum, add_sub_cancel]

/-- Without rounding, the calls of a new pacer count all the instructions that their time
pays for, however it is divided among them. -/
theorem counts_do_not_drift {elapsed : List Number} (hnew : ofClockSpeed? speed = some new)
    (hspeed : speed.exact = .finite c) (hexact : new.PaysExactlyAlong elapsed) :
    let paid := c * totalTime elapsed
    ∃ counts last, instructionsForEach elapsed new = .ok counts last ∧
      counts.length = elapsed.length ∧ counts.sum = ⌊paid⌋ ∧
      last.carry = .finite (paid - ⌊paid⌋) ∧
      ∀ elapsed', new.PaysExactlyAlong elapsed' → totalTime elapsed' = totalTime elapsed →
        ∃ counts', instructionsForEach elapsed' new = .ok counts' last ∧
          counts'.sum = counts.sum := by
  intro paid
  have hsound := sound_of_ofClockSpeed? hnew
  obtain rfl := (ofClockSpeed?_eq_some_iff.mp hnew).2
  have heach {elapsed : List Number} (h : PaysExactlyAlong ⟨speed, .zero⟩ elapsed) :=
    hsound.instructionsForEach_eq hspeed rfl h
  simp only [add_zero] at heach
  obtain ⟨counts, hcounts, hlength, hsum⟩ := heach hexact
  refine ⟨counts, _, hcounts, hlength, hsum, rfl, ?_⟩
  intro elapsed' hexact' htime
  obtain ⟨counts', hcounts', -, hsum'⟩ := heach hexact'
  rw [htime] at hcounts' hsum'
  exact ⟨counts', hcounts', hsum'.trans hsum.symm⟩

/-- Ten instructions a second for three quarters of a second: in two parts with a step back
between them, and in one. -/
theorem divided_time_does_not_drift :
    let parts : List Number := [.float (.finite (1 / 4)), .int (-1), .float (.finite (1 / 2))]
    let whole : List Number := [.float (.finite (3 / 4))]
    let last : Pacer := ⟨.int 10, .finite (1 / 2)⟩
    PaysExactlyAlong ⟨.int 10, .zero⟩ parts ∧ PaysExactlyAlong ⟨.int 10, .zero⟩ whole ∧
      instructionsForEach parts ⟨.int 10, .zero⟩ = .ok [2, 0, 5] last ∧
      ∃ counts, instructionsForEach whole ⟨.int 10, .zero⟩ = .ok counts last ∧
        counts.sum = 7 := by
  intro parts whole last
  have hnew : ofClockSpeed? (.int 10) = some ⟨.int 10, .zero⟩ := by decide
  have hquarter : PaysExactly ⟨.int 10, .zero⟩ (.float (.finite (1 / 4))) :=
    ⟨10, 0, .float (.finite (5 / 2)), rfl, rfl, by decide +kernel⟩
  have hback : PaysExactly last (.int (-1)) :=
    ⟨10, 1 / 2, .float .zero, rfl, rfl, by decide +kernel⟩
  have hhalf : PaysExactly last (.float (.finite (1 / 2))) :=
    ⟨10, 1 / 2, .float (.finite 5), rfl, rfl, by decide +kernel⟩
  have hwhole : PaysExactly ⟨.int 10, .zero⟩ (.float (.finite (3 / 4))) :=
    ⟨10, 0, .float (.finite (15 / 2)), rfl, rfl, by decide +kernel⟩
  have hafter : after ⟨.int 10, .zero⟩ (.float (.finite (1 / 4))) = last := by decide +kernel
  have hkept : last.after (.int (-1)) = last := by decide +kernel
  have hparts : PaysExactlyAlong ⟨.int 10, .zero⟩ parts := by
    rw [paysExactlyAlong_cons_iff, hafter, paysExactlyAlong_cons_iff, hkept,
      paysExactlyAlong_cons_iff]
    exact ⟨hquarter, hback, hhalf, paysExactlyAlong_nil _⟩
  have hone : PaysExactlyAlong ⟨.int 10, .zero⟩ whole :=
    paysExactlyAlong_cons_iff.mpr ⟨hwhole, paysExactlyAlong_nil _⟩
  have hcounts : instructionsForEach parts ⟨.int 10, .zero⟩ = .ok [2, 0, 5] last := by
    decide +kernel
  obtain ⟨counts, last', hsame, -, -, -, hdivided⟩ := counts_do_not_drift hnew rfl hparts
  cases hcounts.symm.trans hsame
  have htime : totalTime whole = totalTime parts := by decide +kernel
  exact ⟨hparts, hone, hcounts, hdivided whole hone htime⟩

end Pacer
end Chip8
