import Chip8.Proofs.Machine.Arithmetic
import Chip8.Proofs.Machine.Grouping
import Chip8.Proofs.Machine.Tick

/-!
# Timers and the buzzer

Each timer is set by one instruction and touched by no other, and a tick counts it down once
after its steps, however many there are. So over ticks that do not set it a timer runs down
to zero by one each tick, and the buzzer sounds for as long as something is left.

A tick that sets the sound timer also counts it down before it answers. A timer that is set
to some number therefore sounds for one tick less.
-/
namespace Chip8

inductive Timer where
  | delay
  | sound

def Machine.timer (m : Machine) : Timer → Int
  | .delay => m.delay
  | .sound => m.sound

/-- The instruction that sets the timer to what a register holds. -/
def Timer.setter : Timer → Fin 16 → Instruction
  | delay, x => .setDelay x
  | sound, x => .setSound x

namespace TakenStep

def Sets (t : TakenStep) (k : Timer) : Prop :=
  ∃ word x, t.before.memory.word? t.before.pc = some word ∧
    Instruction.StandsFor word (k.setter x)

/-- The step sets the timer to this value. -/
def SetsTo (t : TakenStep) (k : Timer) (value : Nat) : Prop :=
  ∃ word x, t.before.memory.word? t.before.pc = some word ∧
    Instruction.StandsFor word (k.setter x) ∧ (t.before.reg x).toNat = value

end TakenStep

namespace Machine
variable {m after : Machine} {stream : RandomBytes} {k : Timer}

theorem timer_of_effect {i : Instruction} {a : Int} (e : i.Effect a m after)
    (h : ∀ x, i ≠ k.setter x) : after.timer k = m.timer k := by
  cases k with
  | delay =>
      have hkept : i.delayAfter m = m.delay := by
        cases i with
        | setDelay x => exact (h x rfl).elim
        | _ => rfl
      exact e.delay.trans hkept
  | sound =>
      have hkept : i.soundAfter m = m.sound := by
        cases i with
        | setSound x => exact (h x rfl).elim
        | _ => rfl
      exact e.sound.trans hkept

/-- A step on any other word leaves the timer alone, whether it returns or stops. -/
theorem timer_step (h : ¬ (⟨stream, m⟩ : TakenStep).Sets k) :
    (m.step stream).machine.timer k = m.timer k := by
  have hs := stepped stream m
  generalize m.step stream = o at hs ⊢
  cases hs with
  | strayed | skipped | failed => cases k <;> rfl
  | @completed word i after hw hi he =>
      have heffect := effect_of_fetched (Instruction.execute_effect rfl he)
      refine timer_of_effect heffect ?_
      rintro x rfl
      exact h ⟨word, x, hw, hi⟩

theorem timer_step_of_setsTo {value : Nat} (h : (⟨stream, m⟩ : TakenStep).SetsTo k value) :
    (m.step stream).stop = none ∧ (m.step stream).machine.timer k = value := by
  obtain ⟨word, x, hw, hi, hvalue⟩ := h
  cases k with
  | delay | sound =>
      rw [step_of_execute hw hi rfl]
      exact ⟨rfl, congrArg Nat.cast hvalue⟩

theorem timer_steps {n : Nat} (h : ∀ t ∈ trail stream n m, ¬ t.Sets k) :
    (steps stream n m).machine.timer k = m.timer k := by
  induction n generalizing m with
  | zero => rfl
  | succ n ih =>
      unfold trail at h
      obtain ⟨hfirst, hlater⟩ := List.forall_mem_cons.mp h
      rw [steps_succ]
      cases hstop : (m.step stream).stop with
      | some stop =>
          rw [Outcome.andThen_of_stop hstop]
          exact timer_step hfirst
      | none =>
          rw [hstop] at hlater
          rw [Outcome.machine_andThen hstop, ih hlater]
          exact timer_step hfirst

/-- After a step of a run comes the rest of the run, on the machine that the step left. -/
theorem exists_rest_of_trail {n : Nat} {earlier later : List TakenStep} {taken : TakenStep}
    (h : trail stream n m = earlier ++ taken :: later) :
    taken.stream = stream ∧ ∃ left, later = trail stream left taken.after ∧
      (steps stream n m).machine = (steps stream left taken.after).machine := by
  induction n generalizing m earlier with
  | zero => cases earlier <;> cases h
  | succ n ih =>
      rw [steps_succ]
      unfold trail at h
      cases hstop : (m.step stream).stop with
      | some stop =>
          rw [hstop] at h
          rw [Outcome.andThen_of_stop hstop]
          cases earlier with
          | nil =>
              cases h
              exact ⟨rfl, 0, rfl, rfl⟩
          | cons t earlier => cases earlier <;> cases h
      | none =>
          rw [hstop] at h
          rw [Outcome.machine_andThen hstop]
          cases earlier with
          | nil =>
              cases h
              exact ⟨rfl, n, rfl, rfl⟩
          | cons t earlier => exact ih (List.cons.inj h).2

/-- Only the last step that sets the timer shows in what a run leaves it at. -/
theorem timer_steps_of_setsTo {n value : Nat} {earlier later : List TakenStep}
    {taken : TakenStep} (h : trail stream n m = earlier ++ taken :: later)
    (hset : taken.SetsTo k value) (hlater : ∀ t ∈ later, ¬ t.Sets k) :
    (steps stream n m).machine.timer k = value := by
  obtain ⟨rfl, left, rfl, hrest⟩ := exists_rest_of_trail h
  rw [hrest, timer_steps hlater]
  exact (timer_step_of_setsTo hset).2

theorem timer_countDown (h : 0 ≤ m.timer k) : m.countDown.timer k = max 0 (m.timer k - 1) := by
  cases k with
  | delay =>
      show (if 0 < m.delay then m.delay - 1 else m.delay) = max 0 (m.delay - 1)
      replace h : 0 ≤ m.delay := h
      split <;> omega
  | sound =>
      show (if 0 < m.sound then m.sound - 1 else m.sound) = max 0 (m.sound - 1)
      replace h : 0 ≤ m.sound := h
      split <;> omega

variable {elapsed : Number} {keys : Array Bool}

/-- A tick that returns has taken all its steps and then counted the timers down. -/
theorem machine_tick (h : (m.tick stream elapsed keys).stop = none) :
    ∃ count ready, pace elapsed keys m = .ok count ready ∧
      m.tickTrail stream elapsed keys = trail stream count ready ∧
      (m.tick stream elapsed keys).machine = (steps stream count ready).machine.countDown := by
  cases hpaced : pace elapsed keys m with
  | error stop left =>
      rw [tick_of_unpaced hpaced] at h
      cases h
  | ok count ready =>
      refine ⟨count, ready, rfl, tickTrail_of_paced hpaced, ?_⟩
      rw [tick_of_paced hpaced] at h ⊢
      cases hstop : (steps stream count ready).stop with
      | some stop =>
          rw [Outcome.andThen_of_stop hstop, hstop] at h
          cases h
      | none =>
          rw [Outcome.machine_andThen hstop]
          rfl

theorem timer_of_paced {count : Nat} {ready : Machine}
    (h : pace elapsed keys m = .ok count ready) : ready.timer k = m.timer k := by
  obtain ⟨keypad, _, pacer, -, -, -, rfl⟩ := pace_eq_ok_iff.mp h
  cases k <;> rfl

theorem timer_tick (h : (m.tick stream elapsed keys).stop = none) (hm : 0 ≤ m.timer k)
    (hnone : ∀ t ∈ m.tickTrail stream elapsed keys, ¬ t.Sets k) :
    (m.tick stream elapsed keys).machine.timer k = max 0 (m.timer k - 1) := by
  obtain ⟨count, ready, hpaced, htrail, hmachine⟩ := machine_tick h
  rw [htrail] at hnone
  have hkept := (timer_steps hnone).trans (timer_of_paced hpaced)
  rw [hmachine, timer_countDown (hkept ▸ hm), hkept]

/-- The tick that sets a timer counts it down as well. -/
theorem timer_tick_of_setsTo {value : Nat} {earlier later : List TakenStep} {taken : TakenStep}
    (h : (m.tick stream elapsed keys).stop = none)
    (htrail : m.tickTrail stream elapsed keys = earlier ++ taken :: later)
    (hset : taken.SetsTo k value) (hlater : ∀ t ∈ later, ¬ t.Sets k) :
    (m.tick stream elapsed keys).machine.timer k = max 0 (value - 1 : Int) := by
  obtain ⟨count, ready, -, hrun, hmachine⟩ := machine_tick h
  have hvalue := timer_steps_of_setsTo (hrun.symm.trans htrail) hset hlater
  rw [hmachine, timer_countDown (hvalue ▸ Int.natCast_nonneg value), hvalue]

end Machine

/-! ## Runs of ticks -/

namespace Operation

def IsTick : Operation → Prop
  | tick _ _ _ => True
  | _ => False

end Operation

namespace Machine
variable {m : Machine} {k : Timer}

/-- Each of some operations returns, done on the machine that those before it left. -/
def AllReturn (m : Machine) (operations : List Operation) : Prop :=
  ∀ earlier o later, operations = earlier ++ o :: later →
    (o.perform (m.performAll earlier)).stop = none

theorem performAll_singleton (m : Machine) (o : Operation) :
    m.performAll [o] = (o.perform m).machine := rfl

theorem performAll_append (m : Machine) (earlier later : List Operation) :
    m.performAll (earlier ++ later) = (m.performAll earlier).performAll later :=
  List.foldl_append

theorem AllReturn.of_append {earlier later : List Operation}
    (h : m.AllReturn (earlier ++ later)) :
    m.AllReturn earlier ∧ (m.performAll earlier).AllReturn later := by
  constructor
  · rintro before o between rfl
    exact h before o (between ++ later) (by simp)
  · rintro between o after rfl
    rw [← performAll_append]
    exact h (earlier ++ between) o after (by simp)

theorem allReturn_nil (m : Machine) : m.AllReturn [] := by
  intro earlier o later h
  cases earlier <;> cases h

theorem allReturn_cons_iff {o : Operation} {operations : List Operation} :
    m.AllReturn (o :: operations) ↔
      (o.perform m).stop = none ∧ (o.perform m).machine.AllReturn operations := by
  constructor
  · intro h
    have hall : m.AllReturn ([o] ++ operations) := h
    exact ⟨h [] o operations rfl, hall.of_append.2⟩
  · rintro ⟨hfirst, hrest⟩ earlier o' later h
    cases earlier with
    | nil =>
        cases h
        exact hfirst
    | cons _ earlier =>
        cases h
        exact hrest earlier o' later rfl

theorem trailAll_singleton (m : Machine) (o : Operation) : m.trailAll [o] = o.trail m :=
  List.append_nil _

theorem trailAll_append (m : Machine) (earlier later : List Operation) :
    m.trailAll (earlier ++ later) =
      m.trailAll earlier ++ (m.performAll earlier).trailAll later := by
  induction earlier generalizing m with
  | nil => rfl
  | cons o earlier ih =>
      show o.trail m ++ (o.perform m).machine.trailAll (earlier ++ later) = _
      rw [ih, ← List.append_assoc]
      rfl

theorem timer_perform_tick {o : Operation} (htick : o.IsTick) (hstop : (o.perform m).stop = none)
    (hm : 0 ≤ m.timer k) (hnone : ∀ t ∈ o.trail m, ¬ t.Sets k) :
    (o.perform m).machine.timer k = max 0 (m.timer k - 1) := by
  cases o with
  | tick stream elapsed keys => exact timer_tick hstop hm hnone
  | _ => exact htick.elim

theorem timer_perform_of_setsTo {o : Operation} {value : Nat} {earlier later : List TakenStep}
    {taken : TakenStep} (htick : o.IsTick) (hstop : (o.perform m).stop = none)
    (htrail : o.trail m = earlier ++ taken :: later) (hset : taken.SetsTo k value)
    (hlater : ∀ t ∈ later, ¬ t.Sets k) :
    (o.perform m).machine.timer k = max 0 (value - 1 : Int) := by
  cases o with
  | tick stream elapsed keys => exact timer_tick_of_setsTo hstop htrail hset hlater
  | _ => exact htick.elim

/-- A timer that is not set runs down by one each tick, and stays at zero. -/
theorem timer_performAll {ticks : List Operation} (hticks : ∀ o ∈ ticks, o.IsTick)
    (hreturn : m.AllReturn ticks) (hm : 0 ≤ m.timer k)
    (hnone : ∀ t ∈ m.trailAll ticks, ¬ t.Sets k) :
    (m.performAll ticks).timer k = max 0 (m.timer k - ticks.length) := by
  induction ticks generalizing m with
  | nil =>
      rw [List.length_nil, Nat.cast_zero, sub_zero, max_eq_right hm]
      rfl
  | cons o ticks ih =>
      obtain ⟨hreturns, hlater⟩ := allReturn_cons_iff.mp hreturn
      obtain ⟨hfirst, hrest⟩ := List.forall_mem_append.mp hnone
      have htimer := timer_perform_tick (hticks o (.head ticks)) hreturns hm hfirst
      have hnonneg : 0 ≤ (o.perform m).machine.timer k := htimer ▸ le_max_left _ _
      have hrun := ih (fun o' ho' => hticks o' (.tail o ho')) hlater hnonneg hrest
      show ((o.perform m).machine.performAll ticks).timer k = _
      rw [hrun, htimer, List.length_cons]
      push_cast
      omega

/-- A tick that returns answers whether anything is left of the sound timer. -/
theorem answer_of_sound {o : Outcome} {left : Int} (hstop : o.stop = none)
    (hsound : o.machine.sound = max 0 left) :
    ∃ pixels, o.answer? = some (pixels, decide (0 < left)) := by
  have hsounding : o.machine.sounding = decide (0 < left) := by
    unfold sounding
    rw [hsound]
    congr 1
    exact propext (by omega)
  refine ⟨o.machine.screen.pixels, ?_⟩
  unfold Outcome.answer?
  rw [hstop, hsounding]

/-- The buzzer sounds as long as the ticks until then leave something of the sound timer. -/
theorem answer_after_ticks {earlier later : List Operation} {o : Operation}
    (hticks : ∀ o' ∈ earlier ++ o :: later, o'.IsTick)
    (hreturn : m.AllReturn (earlier ++ o :: later)) (hm : 0 ≤ m.sound)
    (hnone : ∀ t ∈ m.trailAll (earlier ++ o :: later), ¬ t.Sets .sound) :
    ∃ pixels, (o.perform (m.performAll earlier)).answer? =
      some (pixels, decide (earlier.length + 1 < m.sound)) := by
  have hstop := hreturn earlier o later rfl
  rw [List.append_cons] at hticks hreturn hnone
  rw [trailAll_append] at hnone
  have hsound : (m.performAll (earlier ++ [o])).sound = _ :=
    timer_performAll (k := .sound) (List.forall_mem_append.mp hticks).1 hreturn.of_append.1 hm
      (List.forall_mem_append.mp hnone).1
  rw [performAll_append, List.length_append, List.length_singleton] at hsound
  obtain ⟨pixels, hanswer⟩ := answer_of_sound hstop hsound
  have hleft : 0 < m.timer .sound - (earlier.length + 1 : Nat) ↔ earlier.length + 1 < m.sound := by
    show 0 < m.sound - (earlier.length + 1 : Nat) ↔ _
    omega
  exact ⟨pixels, hanswer.trans (by simp only [hleft])⟩

/-- Over ticks that return, a timer that is not set runs down by one each tick, and the buzzer
sounds until the sound timer has run down. From the tick that sets the sound timer to some
number on, and if nothing sets it again, the buzzer sounds for one tick less than that. -/
theorem Reachable.timers_run_down (h : Reachable m) {ticks : List Operation}
    (hticks : ∀ o ∈ ticks, o.IsTick) (hreturn : m.AllReturn ticks) :
    ((∀ t ∈ m.trailAll ticks, ¬ t.Sets .delay) →
        (m.performAll ticks).delay = max 0 (m.delay - ticks.length)) ∧
      ((∀ t ∈ m.trailAll ticks, ¬ t.Sets .sound) →
        (m.performAll ticks).sound = max 0 (m.sound - ticks.length) ∧
          ∀ earlier o later, ticks = earlier ++ o :: later →
            ∃ pixels, (o.perform (m.performAll earlier)).answer? =
              some (pixels, decide (earlier.length + 1 < m.sound))) ∧
      ∀ before first after, ticks = before ++ first :: after →
        ∀ earlier taken later value,
          first.trail (m.performAll before) = earlier ++ taken :: later →
          taken.SetsTo .sound value →
          (∀ t ∈ later ++ (m.performAll (before ++ [first])).trailAll after, ¬ t.Sets .sound) →
          ∀ between o rest, first :: after = between ++ o :: rest →
            ∃ pixels, (o.perform (m.performAll (before ++ between))).answer? =
              some (pixels, decide (between.length < value - 1)) := by
  have hrange := h.inRange
  refine ⟨timer_performAll (k := .delay) hticks hreturn hrange.delay.1, ?_, ?_⟩
  · intro hnone
    refine ⟨timer_performAll (k := .sound) hticks hreturn hrange.sound.1 hnone, ?_⟩
    rintro earlier o later rfl
    exact answer_after_ticks hticks hreturn hrange.sound.1 hnone
  · rintro before first after rfl earlier taken later value htrail hset hnone between o rest hsplit
    obtain ⟨-, hfrom⟩ := List.forall_mem_append.mp hticks
    obtain ⟨-, hreturns⟩ := hreturn.of_append
    obtain ⟨hlater, hafter⟩ := List.forall_mem_append.mp hnone
    rw [performAll_append] at hafter
    rw [performAll_append]
    generalize m.performAll before = start at htrail hreturns hafter ⊢
    obtain ⟨hstop, hreturns⟩ := allReturn_cons_iff.mp hreturns
    -- The tick that sets the timer leaves one less than what it was set to.
    have hsound : (first.perform start).machine.sound = max 0 (value - 1 : Int) :=
      timer_perform_of_setsTo (k := .sound) (hfrom first (.head after)) hstop htrail hset hlater
    cases between with
    | nil =>
        cases hsplit
        obtain ⟨pixels, hanswer⟩ := answer_of_sound hstop hsound
        have hleft : (0 : Int) < value - 1 ↔ ([] : List Operation).length < value - 1 := by
          rw [List.length_nil]
          omega
        exact ⟨pixels, hanswer.trans (by simp only [hleft])⟩
    | cons _ between =>
        obtain ⟨rfl, rfl⟩ := List.cons.inj hsplit
        obtain ⟨pixels, hanswer⟩ := answer_after_ticks (List.forall_mem_cons.mp hfrom).2 hreturns
          (hsound ▸ le_max_left _ _) hafter
        have hleft : between.length + 1 < (first.perform start).machine.sound ↔
            (first :: between).length < value - 1 := by
          rw [hsound, List.length_cons]
          omega
        exact ⟨pixels, hanswer.trans (by simp only [hleft])⟩

/-- A sound timer that is set to two sounds for one tick, also if the second has no step. -/
theorem two_sounds_for_one_tick :
    let started := ((Machine.new ⟨Pacer.defaultClockSpeed, .zero⟩ false).load
      #[0x60, 0x02, 0xF0, 0x18]).machine
    let m := (started.step fun _ => 0).machine
    let keys := Array.replicate 16 true
    let first : Operation := .tick (fun _ => 0) (.float (.finite (1 / 512))) keys
    let second : Operation := .tick (fun _ => 0) (.int 0) keys
    Reachable m ∧ m.AllReturn [first, second] ∧
      (∃ pixels, (first.perform m).answer? = some (pixels, true)) ∧
      ∃ pixels, (second.perform (first.perform m).machine).answer? = some (pixels, false) := by
  intro started m keys first second
  obtain ⟨hreachable, hword, htwo⟩ : Reachable m ∧
      m.memory.word? m.pc = some (byteWord 0xF 0 0x18) ∧ m.reg 0 = 0x02 :=
    after_setByte rfl rfl (by decide) (by decide)
  have hpacer : m.pacer = ⟨.int 700, .zero⟩ := (step_keeps _ started).2.1.trans (pacer_load _)
  clear_value m
  have hkeys : Keypad.ofSnapshot? keys = some ⟨Vector.replicate 16 true⟩ := by decide
  have hone : Pacer.instructionsFor (.float (.finite (1 / 512))) ⟨.int 700, .zero⟩ =
      .ok 1 ⟨.int 700, .finite (47 / 128)⟩ := by decide +kernel
  have hzero : Pacer.instructionsFor (.int 0) ⟨.int 700, .finite (47 / 128)⟩ =
      .ok 0 ⟨.int 700, .finite (47 / 128)⟩ := by decide +kernel
  let ready : Machine :=
    { m with keypad := ⟨Vector.replicate 16 true⟩, pacer := ⟨.int 700, .finite (47 / 128)⟩ }
  rw [← hpacer] at hone
  have hfirst : pace (.float (.finite (1 / 512))) keys m = .ok 1 ready :=
    pace_eq_ok_iff.mpr ⟨_, _, _, hkeys, hone, rfl, rfl⟩
  have hset : (⟨fun _ => 0, ready⟩ : TakenStep).SetsTo .sound 2 :=
    ⟨_, 0, hword, .setSound 0, congrArg UInt8.toNat htwo⟩
  have hreturns : ready.Returns (fun _ => 0) 1 :=
    returns_succ_iff.mpr ⟨(timer_step_of_setsTo hset).1, returns_zero _ _⟩
  have hstop : (first.perform m).stop = none := ((ticked_of_paced hfirst).completed hreturns).1
  have htrail : first.trail m = [⟨fun _ => 0, ready⟩] :=
    (tickTrail_of_paced hfirst).trans (trail_one _ _)
  have hkept : (first.perform m).machine.pacer = ⟨.int 700, .finite (47 / 128)⟩ :=
    pacer_tick hfirst
  rw [← hkept] at hzero
  have hsecond := pace_eq_ok_iff.mpr ⟨_, _, _, hkeys, hzero, rfl, rfl⟩
  have hstops : (second.perform (first.perform m).machine).stop = none :=
    ((ticked_of_paced hsecond).completed (returns_zero _ _)).1
  have hnone : second.trail (first.perform m).machine = [] := tickTrail_of_paced hsecond
  have hticks : ∀ o ∈ [first, second], o.IsTick := by simp [first, second, Operation.IsTick]
  have hreturn : m.AllReturn [first, second] :=
    allReturn_cons_iff.mpr ⟨hstop, allReturn_cons_iff.mpr ⟨hstops, allReturn_nil _⟩⟩
  obtain ⟨-, -, hsounds⟩ := hreachable.timers_run_down hticks hreturn
  have hlater : ∀ t ∈ [] ++ (m.performAll ([] ++ [first])).trailAll [second], ¬ t.Sets .sound := by
    rw [List.nil_append, List.nil_append, performAll_singleton, trailAll_singleton, hnone]
    exact List.forall_mem_nil _
  have hanswers := hsounds [] first [second] rfl [] _ [] 2 htrail hset hlater
  -- Rewritten by name: unfolding the first tick would work out all of its arithmetic.
  have hquiet := hanswers [first] second [] rfl
  rw [List.nil_append, performAll_singleton] at hquiet
  exact ⟨hreachable, hreturn, hanswers [] first [second] rfl, hquiet⟩

end Machine
end Chip8
