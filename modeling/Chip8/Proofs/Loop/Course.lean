import Chip8.Proofs.Loop.Round

/-!
# Whole runs of the main loop

A run is some completed iterations and then an end: the limit on ticks is reached, the user
wants to end, or something fails. Every completed iteration uses up clock readings, so a run
without a limit always ends in one of the other two ways.

After each completed iteration the frame drawn last is the screen as it is. Apart from the
first, an iteration draws exactly if its tick has painted.
-/
namespace Chip8

def HostCall.frame? : HostCall → Option (Array Bool)
  | .draw pixels => some pixels
  | _ => none

def Host.lastFrame? (h : Host) : Option (Array Bool) :=
  (h.announced.filterMap HostCall.frame?).getLast?

namespace Loop
open Session

/-- Whether an iteration is begun after a number of completed ones. -/
def GoesOn (maxTicks : Option Int) (k : Nat) : Prop :=
  ∀ limit, maxTicks = some limit → (k : Int) < limit

/-- The sessions after the completed iterations of a run, by their number. -/
inductive Completed (stream : RandomBytes) (maxTicks : Option Int) (s₀ : Session) :
    Nat → Pace → Session → Prop
  | begun {p : Pace} {s : Session} : Loop.start s₀ = .ok p s → Completed stream maxTicks s₀ 0 p s
  | next {k : Nat} {p p' : Pace} {s after : Session} : Completed stream maxTicks s₀ k p s →
      GoesOn maxTicks k → iterate stream p s = .ok (some p') after →
      Completed stream maxTicks s₀ (k + 1) p' after

inductive Ends (stream : RandomBytes) (maxTicks : Option Int) (s₀ : Session) :
    EStateM.Result Failure Session Unit → Prop
  | unstarted {e : Failure} {after : Session} : Loop.start s₀ = .error e after →
      Ends stream maxTicks s₀ (.error e after)
  | limit {k : Nat} {p : Pace} {s : Session} : Completed stream maxTicks s₀ k p s →
      ¬GoesOn maxTicks k → Ends stream maxTicks s₀ (.ok () s)
  | quit {k : Nat} {p : Pace} {s after : Session} : Completed stream maxTicks s₀ k p s →
      GoesOn maxTicks k → iterate stream p s = .ok none after →
      Ends stream maxTicks s₀ (.ok () after)
  | failed {k : Nat} {p : Pace} {s after : Session} {e : Failure} :
      Completed stream maxTicks s₀ k p s → GoesOn maxTicks k →
      iterate stream p s = .error e after → Ends stream maxTicks s₀ (.error e after)

/-- So many ticks lead from one machine to another, with the screen looked at after each. -/
inductive Ticked (stream : RandomBytes) : Nat → Machine → Machine → Prop
  | none {m : Machine} : Ticked stream 0 m m
  | more {k : Nat} {m between after : Machine} {elapsed : Number} {keys : Array Bool} :
      Ticked stream k m between → (between.tick stream elapsed keys).stop = none →
      Shown (between.tick stream elapsed keys).machine after → Ticked stream (k + 1) m after

variable {stream : RandomBytes} {maxTicks : Option Int} {s₀ s after : Session} {p p' : Pace}
  {k : Nat}

/-- The number of iterations that a run allows itself. -/
def allowance (maxTicks : Option Int) (s : Session) : Nat :=
  (maxTicks.map Int.toNat).getD (s.host.readings.length + 1)

theorem goesOn_iff_lt_allowance (hk : k ≤ s.host.readings.length) :
    GoesOn maxTicks k ↔ k < allowance maxTicks s := by
  unfold GoesOn allowance
  cases maxTicks with
  | none => simpa using Nat.lt_succ_of_le hk
  | some limit =>
      simp only [Option.some.injEq, forall_eq', Option.map_some, Option.getD_some]
      omega

theorem iterations_succ (n : Nat) (p : Pace) (s : Session) :
    iterations stream (n + 1) p s =
      match iterate stream p s with
      | .ok none after => .ok () after
      | .ok (some p') after => iterations stream n p' after
      | .error e after => .error e after := by
  show (iterate stream p >>= _) s = _
  rw [bind_apply]
  cases iterate stream p s with
  | error e after => rfl
  | ok next after => cases next <;> rfl

theorem run_of_start {p₁ : Pace} {s₁ : Session} (h : start s₀ = .ok p₁ s₁) :
    run stream maxTicks s₀ = iterations stream (allowance maxTicks s₁) p₁ s₁ :=
  bind_of_ok h

/-- What is left of a run after some completed iterations, and what they have used up. -/
theorem Completed.rest (h : Completed stream maxTicks s₀ k p s) :
    ∃ p₁ s₁ n, start s₀ = .ok p₁ s₁ ∧ k + n = allowance maxTicks s₁ ∧
      k + s.host.readings.length ≤ s₁.host.readings.length ∧
      run stream maxTicks s₀ = iterations stream n p s := by
  induction h with
  | @begun p s hstart =>
      exact ⟨p, s, _, hstart, Nat.zero_add _, by omega, run_of_start hstart⟩
  | @next k p p' s after _ hgoes hiterate ih =>
      obtain ⟨p₁, s₁, n, hstart, hn, hspent, hrun⟩ := ih
      obtain ⟨r, hleads⟩ := exists_round hiterate
      -- The iteration used up readings, so the allowance of an unlimited run is not used up yet.
      have hspends := hleads.spends
      have hlt : k < allowance maxTicks s₁ := (goesOn_iff_lt_allowance (by omega)).mp hgoes
      obtain ⟨n, rfl⟩ := Nat.exists_eq_succ_of_ne_zero (show n ≠ 0 by omega)
      refine ⟨p₁, s₁, n, hstart, by omega, by omega, ?_⟩
      rw [hrun, iterations_succ, hiterate]

theorem Completed.goesOn_iff {p₁ : Pace} {s₁ : Session} (h : Completed stream maxTicks s₀ k p s)
    (hstart : start s₀ = .ok p₁ s₁) : GoesOn maxTicks k ↔ k < allowance maxTicks s₁ := by
  obtain ⟨p₂, s₂, -, hstart', -, hspent, -⟩ := h.rest
  rw [hstart] at hstart'
  cases hstart'
  exact goesOn_iff_lt_allowance (by omega)

theorem ends_iterations {p₁ : Pace} {s₁ : Session} (hstart : start s₀ = .ok p₁ s₁) (n : Nat)
    (h : Completed stream maxTicks s₀ k p s) (hn : k + n = allowance maxTicks s₁) :
    Ends stream maxTicks s₀ (iterations stream n p s) := by
  have hgoes := h.goesOn_iff hstart
  induction n generalizing k p s with
  | zero => exact .limit h fun hon => Nat.ne_of_lt (hgoes.mp hon) hn
  | succ n ih =>
      have hon : GoesOn maxTicks k := hgoes.mpr (by omega)
      rw [iterations_succ]
      cases hiterate : iterate stream p s with
      | error e after => exact .failed h hon hiterate
      | ok next after =>
          cases next with
          | none => exact .quit h hon hiterate
          | some p' =>
              have hnext := h.next hon hiterate
              exact ih hnext (by omega) (hnext.goesOn_iff hstart)

/-- However a run ends, it ends in one of these ways. -/
theorem ends_run (stream : RandomBytes) (maxTicks : Option Int) (s₀ : Session) :
    Ends stream maxTicks s₀ (run stream maxTicks s₀) := by
  cases hstart : start s₀ with
  | error e after =>
      have hrun : run stream maxTicks s₀ = .error e after := bind_of_error hstart
      rw [hrun]
      exact .unstarted hstart
  | ok p₁ s₁ =>
      rw [run_of_start hstart]
      exact ends_iterations hstart _ (.begun hstart) (Nat.zero_add _)

theorem start_ok (h : start s₀ = .ok p s) :
    ∃ first rest, s₀.host.readings = first :: rest ∧
      first.addFloat reportInterval = .ok p.reportAt ∧ p.frames = 0 ∧
      s.machine = s₀.machine ∧ s.host.announced = s₀.host.announced := by
  obtain ⟨now, ready, hclock, h⟩ := bind_eq_ok_iff.mp h
  obtain ⟨rest, hreadings, rfl⟩ := eq_of_readClock hclock
  obtain ⟨reportAt, _, hcompute, hdone⟩ := bind_eq_ok_iff.mp h
  obtain ⟨hreportAt, rfl⟩ := eq_of_compute hcompute
  cases hdone
  exact ⟨now, rest, hreadings, hreportAt, rfl, rfl, rfl⟩

theorem machine_of_start (h : start s₀ = .ok p s) : s.machine = s₀.machine := by
  obtain ⟨-, -, -, -, -, hmachine, -⟩ := start_ok h
  exact hmachine

/-- A run has made as many ticks as it has completed iterations. -/
theorem Completed.ticked (h : Completed stream maxTicks s₀ k p s) :
    Ticked stream k s₀.machine s.machine := by
  induction h with
  | begun hstart =>
      rw [machine_of_start hstart]
      exact .none
  | next _ _ hiterate ih =>
      obtain ⟨r, hleads⟩ := exists_round hiterate
      rw [← hleads.begins] at ih
      exact ih.more hleads.returns hleads.machine

theorem screen_of_shown {m m' : Machine} (h : Shown m m') :
    m'.screen = { m.screen with changed := false } := by
  unfold Shown at h
  rw [h]

theorem pixels_of_shown {m m' : Machine} (h : Shown m m') : m'.screen.pixels = m.screen.pixels := by
  rw [screen_of_shown h]

/-- After the first iteration the screen is always one that has been looked at. -/
theorem Completed.unchanged (h : Completed stream maxTicks s₀ k p s) (hk : k ≠ 0) :
    s.machine.screen.changed = false := by
  cases h with
  | begun => exact absurd rfl hk
  | next _ _ hiterate =>
      obtain ⟨r, hleads⟩ := exists_round hiterate
      rw [screen_of_shown hleads.machine]

/-- The tick of an iteration leaves the screen marked if it is the first, and otherwise
exactly if it has painted. -/
theorem Completed.changed_iff (h : Completed stream maxTicks s₀ k p s)
    (hchanged : s₀.machine.screen.changed = true) {r : Round} (hleads : r.Leads stream p s after) :
    (r.outcome stream).machine.screen.changed = true ↔ k = 0 ∨ ∃ t ∈ r.trail stream, t.Paints := by
  unfold Round.outcome Round.trail
  by_cases hk : k = 0
  · subst hk
    refine iff_of_true (Machine.changed_tick_of_changed _ _ ?_) (.inl rfl)
    cases h with
    | begun hstart => rw [hleads.begins, machine_of_start hstart, hchanged]
  · rw [Machine.changed_tick_iff _ _ (by rw [hleads.begins, h.unchanged hk])]
    simp only [hk, false_or]

theorem Round.Leads.draw_mem_iff {r : Round} (h : r.Leads stream p s after) :
    (∃ pixels, HostCall.draw pixels ∈ r.announced) ↔
      (r.outcome stream).machine.screen.changed = true := by
  obtain ⟨titles, htitles, hannounced⟩ := h.announced
  have hnone : ∀ pixels, HostCall.draw pixels ∉ titles := by
    intro pixels hmem
    rcases htitles with rfl | ⟨text, rfl⟩ <;> simp at hmem
  rw [hannounced]
  unfold frames
  cases (r.outcome stream).machine.screen.changed <;> simp [hnone]

theorem Round.Leads.lastFrame? {r : Round} (h : r.Leads stream p s after) :
    after.host.lastFrame? =
      if (r.outcome stream).machine.screen.changed then
        some (r.outcome stream).machine.screen.pixels.toArray
      else s.host.lastFrame? := by
  obtain ⟨titles, htitles, hannounced⟩ := h.announced
  have hnone : titles.filterMap HostCall.frame? = [] := by
    rcases htitles with rfl | ⟨text, rfl⟩ <;> rfl
  unfold Host.lastFrame?
  rw [h.announces, hannounced, List.filterMap_append, List.filterMap_cons_none rfl,
    List.filterMap_append, hnone, List.append_nil]
  unfold frames
  cases (r.outcome stream).machine.screen.changed <;> simp [HostCall.frame?]

/-- The frame drawn last is the screen. -/
theorem Completed.lastFrame? (h : Completed stream maxTicks s₀ k p s)
    (hchanged : s₀.machine.screen.changed = true) (hk : k ≠ 0) :
    s.host.lastFrame? = some s.machine.screen.pixels.toArray := by
  induction h with
  | begun => exact absurd rfl hk
  | @next k p p' s after hcompleted _ hiterate ih =>
      obtain ⟨r, hleads⟩ := exists_round hiterate
      rw [hleads.lastFrame?, pixels_of_shown hleads.machine]
      cases hmarked : (r.outcome stream).machine.screen.changed with
      | true => rfl
      | false =>
          -- Nothing was drawn, so the screen is the one that was drawn before.
          have hlater : k ≠ 0 := by
            rintro rfl
            have hfirst := (hcompleted.changed_iff hchanged hleads).mpr (.inl rfl)
            exact absurd (hfirst.symm.trans hmarked) nofun
          have hsame : (r.outcome stream).machine.screen = s.machine.screen := by
            rw [← hleads.begins]
            exact Machine.screen_tick_of_unchanged hmarked
          rw [hsame]
          exact ih hlater

/-- In a run that begins with a screen not looked at yet, every completed iteration makes one
tick with the keys read in that iteration and sets the buzzer once. It draws if it is the first
or its tick has painted, and only then; either way the frame drawn last is the screen. When the
user wants to end, the run returns at once, with as many ticks made as iterations completed. -/
theorem run_draws_what_is_painted (stream : RandomBytes) (maxTicks : Option Int) (s₀ : Session)
    (hchanged : s₀.machine.screen.changed = true) :
    Ends stream maxTicks s₀ (run stream maxTicks s₀) ∧
      (∀ k p s p' after, Completed stream maxTicks s₀ k p s → GoesOn maxTicks k →
        iterate stream p s = .ok (some p') after →
        after.host.lastFrame? = some after.machine.screen.pixels.toArray ∧
          ∃ r : Round, r.Leads stream p s after ∧
            ((∃ pixels, HostCall.draw pixels ∈ r.announced) ↔
              k = 0 ∨ ∃ t ∈ r.trail stream, t.Paints)) ∧
      ∀ k p s polled, Completed stream maxTicks s₀ k p s → GoesOn maxTicks k →
        withControls Controls.poll s = .ok true polled →
        ∃ after, run stream maxTicks s₀ = .ok () after ∧
          after.host.transcript = s.host.transcript ∧ after.machine = s.machine ∧
          Ticked stream k s₀.machine after.machine := by
  refine ⟨ends_run stream maxTicks s₀, ?_, ?_⟩
  · intro k p s p' after hcompleted hgoes hiterate
    refine ⟨(hcompleted.next hgoes hiterate).lastFrame? hchanged (Nat.succ_ne_zero k), ?_⟩
    obtain ⟨r, hleads⟩ := exists_round hiterate
    exact ⟨r, hleads, hleads.draw_mem_iff.trans (hcompleted.changed_iff hchanged hleads)⟩
  · intro k p s polled hcompleted hgoes hpoll
    obtain ⟨hmachine, htranscript, -⟩ := poll_ok hpoll
    obtain ⟨p₁, s₁, n, hstart, hn, -, hrun⟩ := hcompleted.rest
    have hlt := (hcompleted.goesOn_iff hstart).mp hgoes
    obtain ⟨n, rfl⟩ := Nat.exists_eq_succ_of_ne_zero (show n ≠ 0 by omega)
    rw [hrun, iterations_succ, iterate_of_quit stream p hpoll]
    refine ⟨_, rfl, htranscript, hmachine, ?_⟩
    show Ticked stream k s₀.machine polled.machine
    rw [hmachine]
    exact hcompleted.ticked

theorem blank_screen_is_drawn_once :
    let s₀ : Session :=
      { Session.begin
          { Host.quiet with
            readings := [.int 0, .int 0, .int 0]
            turns := [Turn.idle, { Turn.idle with quit := true }] }
          (Machine.new ⟨Pacer.defaultClockSpeed, .zero⟩ false) #[] with
        controls := .rehearsed
        display := { Display.null with width := screenWidth, height := screenHeight } }
    s₀.machine.screen.changed = true ∧
      ∃ p s p' after last, Completed (fun _ => 0) none s₀ 0 p s ∧
        iterate (fun _ => 0) p s = .ok (some p') after ∧
        after.host.lastFrame? = some after.machine.screen.pixels.toArray ∧
        run (fun _ => 0) none s₀ = .ok () last ∧
        last.host.transcript = after.host.transcript ∧
        Ticked (fun _ => 0) 1 s₀.machine last.machine := by
  intro s₀
  obtain ⟨-, hiterations, hquit⟩ := run_draws_what_is_painted (fun _ => 0) none s₀ rfl
  have hgoes (k : Nat) : GoesOn none k := nofun
  let s := left start s₀
  let p : Pace := ⟨.int 0, .finite 1, 0⟩
  let after := left (iterate (fun _ => 0) p) s
  have hstart : Completed (fun _ => 0) none s₀ 0 p s :=
    .begun (eq_ok_of_value? (by decide +kernel))
  have hiterate : iterate (fun _ => 0) p s = .ok (some ⟨.int 0, .finite 1, 1⟩) after :=
    eq_ok_of_value? (by decide +kernel)
  have hpoll : withControls Controls.poll after =
      .ok true (left (withControls Controls.poll) after) :=
    eq_ok_of_value? (by decide +kernel)
  have hdrawn := (hiterations 0 p s _ after hstart (hgoes 0) hiterate).1
  obtain ⟨last, hrun, htranscript, -, hticked⟩ :=
    hquit 1 _ after _ (hstart.next (hgoes 0) hiterate) (hgoes 1) hpoll
  exact ⟨rfl, p, s, _, after, last, hstart, hiterate, hdrawn, hrun, htranscript, hticked⟩

end Loop
end Chip8
