import Chip8.Proofs.Machine.Halting
import Chip8.Proofs.Machine.Trail

/-!
# What a tick leaves

A tick ends in one of four ways. With a snapshot of the wrong length it leaves everything
as it was. If the elapsed time cannot be turned into instructions, it leaves the new keys
behind and nothing else. Otherwise it takes the steps that are due, all of them under the
new keys. If they all return, each running timer is counted down once. The first one that
stops ends the tick, and no timer is counted down.

The steps of a tick are told by the same steps taken one after another from outside, so
that a tick says nothing new about any of them.
-/
namespace Chip8

/-- What a tick that returns answers: the pixels, and whether the buzzer sounds. -/
def Outcome.answer? (o : Outcome) : Option (Vector Bool (screenWidth * screenHeight) × Bool) :=
  match o.stop with
  | none => some (o.machine.screen.pixels, o.machine.sounding)
  | some _ => none

namespace Machine
variable {stream : RandomBytes} {m ready : Machine} {elapsed : Number} {keys : Array Bool}
  {n j : Nat} {stop : Stop}

/-- The machine after a number of steps, each of them taken on its own. -/
def afterSteps (m : Machine) (stream : RandomBytes) (n : Nat) : Machine :=
  m.performAll (List.replicate n (.step stream))

theorem afterSteps_succ (m : Machine) (stream : RandomBytes) (n : Nat) :
    m.afterSteps stream (n + 1) = (m.step stream).machine.afterSteps stream n := rfl

def Returns (m : Machine) (stream : RandomBytes) (n : Nat) : Prop :=
  ∀ k < n, ((m.afterSteps stream k).step stream).stop = none

theorem returns_zero (m : Machine) (stream : RandomBytes) : m.Returns stream 0 :=
  fun k hk => absurd hk (Nat.not_lt_zero k)

theorem returns_succ_iff :
    m.Returns stream (n + 1) ↔
      (m.step stream).stop = none ∧ (m.step stream).machine.Returns stream n := by
  constructor
  · intro h
    exact ⟨h 0 (Nat.succ_pos n), fun k hk => h (k + 1) (Nat.succ_lt_succ hk)⟩
  · rintro ⟨hfirst, hlater⟩ k hk
    cases k with
    | zero => exact hfirst
    | succ k => exact hlater k (Nat.lt_of_succ_lt_succ hk)

/-- A run whose steps all return leaves what they leave. -/
theorem steps_of_returns (h : m.Returns stream n) :
    (steps stream n m).stop = none ∧ (steps stream n m).machine = m.afterSteps stream n := by
  induction n generalizing m with
  | zero => exact ⟨rfl, rfl⟩
  | succ n ih =>
      obtain ⟨hfirst, hlater⟩ := returns_succ_iff.mp h
      rw [steps_succ, Outcome.stop_andThen hfirst, Outcome.machine_andThen hfirst,
        afterSteps_succ]
      exact ih hlater

/-- A run ends with the first step that stops, as that step left the machine. -/
theorem steps_of_stop (hj : j < n) (h : m.Returns stream j)
    (hstop : ((m.afterSteps stream j).step stream).stop = some stop) :
    (steps stream n m).stop = some stop ∧
      (steps stream n m).machine = m.afterSteps stream (j + 1) := by
  -- Each step before the stop takes one from the run as well, so one at least is left for it.
  induction j generalizing m n with
  | zero =>
      obtain ⟨n, rfl⟩ := Nat.exists_eq_succ_of_ne_zero (Nat.ne_of_gt hj)
      have hfirst : (m.step stream).stop = some stop := hstop
      rw [steps_succ, Outcome.andThen_of_stop hfirst]
      exact ⟨hfirst, rfl⟩
  | succ j ih =>
      obtain ⟨n, rfl⟩ := Nat.exists_eq_succ_of_ne_zero (Nat.ne_of_gt (Nat.zero_lt_of_lt hj))
      obtain ⟨hfirst, hlater⟩ := returns_succ_iff.mp h
      rw [steps_succ, Outcome.stop_andThen hfirst, Outcome.machine_andThen hfirst,
        afterSteps_succ]
      exact ih (Nat.lt_of_succ_lt_succ hj) hlater hstop

/-- Steps read the keys and the pacer and leave them as they are. -/
theorem afterSteps_keeps (m : Machine) (stream : RandomBytes) (n : Nat) :
    (m.afterSteps stream n).keypad = m.keypad ∧ (m.afterSteps stream n).pacer = m.pacer := by
  induction n generalizing m with
  | zero => exact ⟨rfl, rfl⟩
  | succ n ih =>
      obtain ⟨hkeypad, hpacer, -⟩ := step_keeps stream m
      obtain ⟨hkeypads, hpacers⟩ := ih (m.step stream).machine
      rw [afterSteps_succ]
      exact ⟨hkeypads.trans hkeypad, hpacers.trans hpacer⟩

theorem sounding_countDown (m : Machine) : m.countDown.sounding = decide (1 < m.sound) := by
  unfold sounding countDown
  split <;> simp only [decide_eq_decide] <;> omega

structure Ticked (stream : RandomBytes) (due : Nat) (ready : Machine) (o : Outcome) : Prop where
  completed : ready.Returns stream due →
    let ran := ready.afterSteps stream due
    o.stop = none ∧
      o.machine = { ran with
        delay := if 0 < ran.delay then ran.delay - 1 else ran.delay
        sound := if 0 < ran.sound then ran.sound - 1 else ran.sound } ∧
      o.answer? = some (ran.screen.pixels, decide (1 < ran.sound))
  /-- The steps before the one that stops have returned. -/
  stopped : ∀ j stop, j < due → ready.Returns stream j →
    ((ready.afterSteps stream j).step stream).stop = some stop →
    o.stop = some stop ∧ o.machine = ready.afterSteps stream (j + 1)
  keypad : ∀ k, (ready.afterSteps stream k).keypad = ready.keypad
  pacer : ∀ k, (ready.afterSteps stream k).pacer = ready.pacer

theorem ticked_of_paced (h : pace elapsed keys m = .ok n ready) :
    Ticked stream n ready (m.tick stream elapsed keys) := by
  rw [tick_of_paced h]
  constructor
  case completed =>
    intro hreturns ran
    obtain ⟨hstop, hran⟩ := steps_of_returns hreturns
    have hnone : ((steps stream n ready).andThen fun m => .going m.countDown).stop = none := by
      rw [Outcome.stop_andThen hstop]
      rfl
    have hafter : ((steps stream n ready).andThen fun m => .going m.countDown).machine =
        ran.countDown := by
      rw [Outcome.machine_andThen hstop, hran]
      rfl
    refine ⟨hnone, hafter, ?_⟩
    simp only [Outcome.answer?, hnone, hafter, sounding_countDown]
    rfl
  case stopped =>
    intro j stop hj hreturns hstops
    obtain ⟨hstop, hleft⟩ := steps_of_stop hj hreturns hstops
    rw [Outcome.andThen_of_stop hstop]
    exact ⟨hstop, hleft⟩
  case keypad =>
    intro k
    exact (afterSteps_keeps ready stream k).1
  case pacer =>
    intro k
    exact (afterSteps_keeps ready stream k).2

/-- What a tick leaves, whether it is refused, not paced, stopped or completed. -/
theorem tick_leaves (m : Machine) (stream : RandomBytes) (elapsed : Number) (keys : Array Bool) :
    (keys.size ≠ 16 → m.tick stream elapsed keys = .stopped m (.badSnapshot keys.size)) ∧
      ∀ hkeys : keys.size = 16,
        let pressed : Machine := { m with keypad := ⟨⟨keys, hkeys⟩⟩ }
        (∀ e left, Pacer.instructionsFor elapsed m.pacer = .error e left →
          m.tick stream elapsed keys = .stopped pressed (.unpaced e)) ∧
        ∀ count pacer, Pacer.instructionsFor elapsed m.pacer = .ok count pacer →
          Ticked stream count.toNat { pressed with pacer } (m.tick stream elapsed keys) := by
  constructor
  · intro hkeys
    have hrefused : Keypad.ofSnapshot? keys = none := dif_neg hkeys
    unfold tick
    rw [pace_apply, hrefused]
  · intro hkeys pressed
    have htaken : Keypad.ofSnapshot? keys = some ⟨⟨keys, hkeys⟩⟩ := dif_pos hkeys
    constructor
    · intro e left he
      unfold tick
      rw [pace_apply, htaken]
      simp only [he]
      rfl
    · intro count pacer hdue
      apply ticked_of_paced
      rw [pace_apply, htaken]
      simp only [hdue]
      rfl

theorem step_stray_return (stream : RandomBytes) (hword : m.memory.word? m.pc = some 0x00EE)
    (hempty : m.stack.depth = 0) :
    (m.step stream).machine = m.fetched 0x00EE ∧
      ∃ report, (m.step stream).stop = some (.halted .stackUnderflow report) := by
  have hfault : returnFromCall (m.fetched 0x00EE) = .error (.stack .underflow) _ :=
    returnFromCall_eq_error_iff.mpr (if_pos hempty)
  obtain ⟨report, hreport⟩ :
      ∃ report, (m.fetched 0x00EE).haltOn (.stack .underflow) = .halted .stackUnderflow report :=
    haltOn_eq_halted_iff.mpr rfl
  rw [step_of_fault hword .ret hfault]
  exact ⟨rfl, report, congrArg some hreport⟩

/-- The delay timer is set to a number, and then there is no call to return from. -/
theorem delay_then_stray_return {k : UInt8} (stream : RandomBytes)
    (hset : m.memory.word? m.pc = some (byteWord 0x6 0 k))
    (hdelay : m.memory.word? (m.pc + 2) = some (byteWord 0xF 0 0x15))
    (hret : m.memory.word? (m.pc + 2 + 2) = some 0x00EE) (hempty : m.stack.depth = 0) :
    m.Returns stream 2 ∧ (m.afterSteps stream 2).delay = k.toNat ∧
      (m.afterSteps stream 3).delay = k.toNat ∧
      ∃ report, ((m.afterSteps stream 2).step stream).stop =
        some (.halted .stackUnderflow report) := by
  let first : Machine := ((m.fetched (byteWord 0x6 0 k)).setReg 0 k).counted
  let second : Machine :=
    counted { first.fetched (byteWord 0xF 0 0x15) with delay := (first.reg 0).toNat }
  have hfirst : m.step stream = ⟨first, _, none⟩ := step_of_execute hset (.setByte 0 k) rfl
  have hsecond : first.step stream = ⟨second, _, none⟩ := step_of_execute hdelay (.setDelay 0) rfl
  have htwo : m.afterSteps stream 2 = second := by
    rw [afterSteps_succ, hfirst, afterSteps_succ, hsecond]
    rfl
  have hrun : second.delay = k.toNat :=
    congrArg (fun b : UInt8 => (b.toNat : Int)) (reg_setReg_self _ 0 k)
  obtain ⟨hthird, hstops⟩ := step_stray_return (m := second) stream hret hempty
  refine ⟨?_, ?_, ?_, ?_⟩
  · rw [returns_succ_iff, hfirst, returns_succ_iff, hsecond]
    exact ⟨rfl, rfl, returns_zero _ _⟩
  · rw [htwo, hrun]
  · rw [afterSteps_succ, hfirst, afterSteps_succ, hsecond, afterSteps_succ, hthird]
    exact hrun
  · rw [htwo]
    exact hstops

/-- Of three instructions the third returns without a call. A tick that takes two of them
counts the delay timer down, and one that takes three does not. -/
theorem tick_stops_at_third_step :
    let m := ((Machine.new ⟨.int 1, .zero⟩ false).load
      #[0x60, 0x05, 0xF0, 0x15, 0x00, 0xEE]).machine
    let keys := Array.replicate 16 true
    let completed := m.tick (fun _ => 0) (.int 2) keys
    let stopped := m.tick (fun _ => 0) (.int 3) keys
    Reachable m ∧ completed.stop = none ∧ completed.machine.delay = 4 ∧
      (∃ report, stopped.stop = some (.halted .stackUnderflow report)) ∧
      stopped.machine.delay = 5 ∧ stopped.machine.keypad.down = Vector.replicate 16 true := by
  intro m keys completed stopped
  have hspeed : Pacer.ofClockSpeed? (.int 1) = some ⟨.int 1, .zero⟩ := by decide
  have hreachable : Reachable m := (Reachable.new false hspeed).load _
  have hpc : m.pc = programAddress := pc_of_load (by decide)
  have hset : m.memory.word? m.pc = some (byteWord 0x6 0 0x05) :=
    word?_at_start (by decide) (by decide) (by decide)
  have hdelay : m.memory.word? (m.pc + 2) = some (byteWord 0xF 0 0x15) :=
    word?_of_load_eq 2 (by decide) (by rw [hpc]; rfl) (by decide) (by decide)
  have hret : m.memory.word? (m.pc + 2 + 2) = some 0x00EE :=
    word?_of_load_eq 4 (by decide) (by rw [hpc]; rfl) (by decide) (by decide)
  have hempty : m.stack.depth = 0 := congrArg CallStack.depth (stack_load _)
  have hpacer : m.pacer = ⟨.int 1, .zero⟩ := by
    show (Machine.load _ _).machine.pacer = _
    rw [load_of_fits (by decide)]
    rfl
  have htwo : Pacer.instructionsFor (.int 2) ⟨.int 1, .zero⟩ = .ok 2 ⟨.int 1, .zero⟩ := by
    decide +kernel
  have hthree : Pacer.instructionsFor (.int 3) ⟨.int 1, .zero⟩ = .ok 3 ⟨.int 1, .zero⟩ := by
    decide +kernel
  rw [← hpacer] at htwo hthree
  clear_value m
  let ready : Machine := { m with keypad := ⟨⟨keys, Array.size_replicate⟩⟩, pacer := m.pacer }
  obtain ⟨hreturns, hran, hleft, report, hstops⟩ :=
    delay_then_stray_return (m := ready) (fun _ => 0) hset hdelay hret hempty
  have hcompleted : Ticked _ 2 ready completed :=
    ((tick_leaves m (fun _ => 0) (.int 2) keys).2 Array.size_replicate).2 2 m.pacer htwo
  have hstopped : Ticked _ 3 ready stopped :=
    ((tick_leaves m (fun _ => 0) (.int 3) keys).2 Array.size_replicate).2 3 m.pacer hthree
  obtain ⟨hnone, hafter, -⟩ := hcompleted.completed hreturns
  obtain ⟨hstop, hmachine⟩ := hstopped.stopped 2 _ (by decide) hreturns hstops
  refine ⟨hreachable, hnone, ?_, ⟨report, hstop⟩, ?_, ?_⟩
  · rw [hafter]
    dsimp only
    rw [hran]
    rfl
  · rw [hmachine, hleft]
    rfl
  · rw [hmachine, hstopped.keypad 3]
    rfl

end Machine
end Chip8
