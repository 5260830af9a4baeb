import Chip8.Proofs.Machine.Reachable

/-!
# The steps of a run

Steps can be taken alone or in a tick. The trail of a run lists every step in the
order in which they are taken, whether it returns or not, with the machine that it
starts from. The trail is linked: a step starts from the machine that the one
before it left, but for the keypad, the pacer and the timers, which ticks change in
between.
-/
namespace Chip8

structure TakenStep where
  stream : RandomBytes
  before : Machine

namespace TakenStep

def outcome (t : TakenStep) : Outcome := t.before.step t.stream

def after (t : TakenStep) : Machine := t.outcome.machine

end TakenStep

namespace Outcome
variable {o : Outcome} {next : Machine → Outcome}

theorem going_andThen (m : Machine) (next : Machine → Outcome) :
    (going m).andThen next = next m := by
  simp [andThen, going]

theorem andThen_going (o : Outcome) : o.andThen going = o := by
  unfold andThen
  cases hstop : o.stop with
  | some stop => rfl
  | none => simp [going, ← hstop]

theorem andThen_of_stop {stop : Stop} (h : o.stop = some stop) : o.andThen next = o := by
  simp only [andThen, h]

theorem machine_andThen (h : o.stop = none) :
    (o.andThen next).machine = (next o.machine).machine := by
  simp only [andThen, h]

theorem stop_andThen (h : o.stop = none) : (o.andThen next).stop = (next o.machine).stop := by
  simp only [andThen, h]

theorem andThen_assoc (o : Outcome) (next later : Machine → Outcome) :
    (o.andThen next).andThen later = o.andThen fun m => (next m).andThen later := by
  unfold andThen
  cases ho : o.stop with
  | some stop => simp only [ho]
  | none =>
      dsimp only
      cases hn : (next o.machine).stop with
      | some stop => simp only [hn]
      | none => simp only [Array.append_assoc]

end Outcome

namespace Machine
variable {stream : RandomBytes} {m after : Machine}

/-- The machines differ in nothing that a tick changes besides its steps. -/
def Rests (m after : Machine) : Prop :=
  after = { m with
    keypad := after.keypad, pacer := after.pacer, delay := after.delay, sound := after.sound }

theorem Rests.refl (m : Machine) : Rests m m := rfl

theorem Rests.trans {between : Machine} (h : Rests m between) (h' : Rests between after) :
    Rests m after := by
  unfold Rests at h h' ⊢
  rw [h', h]

theorem Rests.stack_eq (h : Rests m after) : after.stack = m.stack := by
  unfold Rests at h
  rw [h]

theorem Rests.screen_eq (h : Rests m after) : after.screen = m.screen := by
  unfold Rests at h
  rw [h]

theorem Rests.ops_eq (h : Rests m after) : after.ops = m.ops := by
  unfold Rests at h
  rw [h]

/-- One machine leads to another by some steps, with rests before, between and after them. -/
inductive Linked : Machine → List TakenStep → Machine → Prop
  | nil {m after : Machine} : Rests m after → Linked m [] after
  | cons {m after : Machine} {t : TakenStep} {trail : List TakenStep} :
      Rests m t.before → Linked t.after trail after → Linked m (t :: trail) after

theorem Linked.rest_left {between : Machine} {trail : List TakenStep} (h : Rests m between)
    (h' : Linked between trail after) : Linked m trail after := by
  cases h' with
  | nil hrest => exact .nil (h.trans hrest)
  | cons hrest hlinked => exact .cons (h.trans hrest) hlinked

theorem Linked.append {between : Machine} {trail trail' : List TakenStep}
    (h : Linked m trail between) (h' : Linked between trail' after) :
    Linked m (trail ++ trail') after := by
  induction h with
  | nil hrest => exact h'.rest_left hrest
  | cons hrest _ ih => exact .cons hrest (ih h')

theorem Linked.rest_right {between : Machine} {trail : List TakenStep}
    (h : Linked m trail between) (h' : Rests between after) : Linked m trail after := by
  have happend := h.append (.nil h')
  rwa [List.append_nil] at happend

/-- What rests keep, and every earlier step too, still holds when a step is taken. -/
theorem Linked.holds_before {P : Machine → Prop} {earlier later : List TakenStep}
    {taken : TakenStep} (h : Linked m (earlier ++ taken :: later) after) (hm : P m)
    (hrest : ∀ {m after}, Rests m after → P m → P after)
    (hsteps : ∀ t ∈ earlier, P t.before → P t.after) : P taken.before := by
  induction earlier generalizing m with
  | nil =>
      cases h with
      | cons hbefore _ => exact hrest hbefore hm
  | cons t earlier ih =>
      cases h with
      | cons hbefore hlinked =>
          have hafter := hsteps t (.head earlier) (hrest hbefore hm)
          exact ih hlinked hafter fun u hu => hsteps u (.tail t hu)

/-- One machine after another, as a run of steps passes through them. -/
def trail (stream : RandomBytes) : Nat → Machine → List TakenStep
  | 0, _ => []
  | n + 1, m =>
      ⟨stream, m⟩ ::
        match (m.step stream).stop with
        | some _ => []
        | none => trail stream n (m.step stream).machine

theorem trail_one (stream : RandomBytes) (m : Machine) : trail stream 1 m = [⟨stream, m⟩] := by
  unfold trail
  cases (m.step stream).stop <;> rfl

/-- What every step keeps holds of every machine that a run of steps passes through. -/
theorem holds_in_trail {P : Machine → Prop} (hstep : ∀ m, P m → P (m.step stream).machine)
    {n : Nat} {t : TakenStep} (hm : P m) (ht : t ∈ trail stream n m) :
    t.stream = stream ∧ P t.before := by
  induction n generalizing m with
  | zero => cases ht
  | succ n ih =>
      unfold trail at ht
      cases ht with
      | head => exact ⟨rfl, hm⟩
      | tail _ ht =>
          cases hstop : (m.step stream).stop with
          | some stop =>
              rw [hstop] at ht
              cases ht
          | none =>
              rw [hstop] at ht
              exact ih (hstep m hm) ht

theorem stepsFrom_succ (n : Nat) (o : Outcome) :
    stepsFrom stream (n + 1) o = stepsFrom stream n (o.andThen (step stream)) := by
  cases hstop : o.stop with
  | none => simp only [stepsFrom, hstop]
  | some stop =>
      rw [Outcome.andThen_of_stop hstop]
      cases n with
      | zero => simp only [stepsFrom, hstop]
      | succ n => simp only [stepsFrom, hstop]

theorem stepsFrom_eq (n : Nat) (o : Outcome) :
    stepsFrom stream n o = o.andThen (steps stream n) := by
  induction n generalizing o with
  | zero => exact (Outcome.andThen_going o).symm
  | succ n ih =>
      have hsteps (m : Machine) :
          steps stream (n + 1) m = (m.step stream).andThen (steps stream n) := by
        rw [steps, stepsFrom_succ, Outcome.going_andThen, ih]
      calc
        stepsFrom stream (n + 1) o = (o.andThen (step stream)).andThen (steps stream n) := by
          rw [stepsFrom_succ, ih]
        _ = o.andThen fun m => (m.step stream).andThen (steps stream n) :=
          Outcome.andThen_assoc ..
        _ = o.andThen (steps stream (n + 1)) := by simp only [← hsteps]

theorem steps_succ (n : Nat) (m : Machine) :
    steps stream (n + 1) m = (m.step stream).andThen (steps stream n) := by
  rw [steps, stepsFrom_succ, Outcome.going_andThen, stepsFrom_eq]

theorem linked_trail (stream : RandomBytes) (n : Nat) (m : Machine) :
    Linked m (trail stream n m) (steps stream n m).machine := by
  induction n generalizing m with
  | zero => exact .nil (.refl m)
  | succ n ih =>
      rw [steps_succ]
      unfold trail
      refine .cons (.refl m) ?_
      cases hstop : (m.step stream).stop with
      | some stop =>
          rw [Outcome.andThen_of_stop hstop]
          exact .nil (.refl _)
      | none =>
          rw [Outcome.machine_andThen hstop]
          exact ih _

def tickTrail (stream : RandomBytes) (elapsed : Number) (keys : Array Bool) (m : Machine) :
    List TakenStep :=
  match pace elapsed keys m with
  | .error _ _ => []
  | .ok count ready => trail stream count ready

variable {elapsed : Number} {keys : Array Bool}

/-- A tick gets as far as its steps if its snapshot is one and its time can be paid for. -/
theorem pace_eq_ok_iff {n : Nat} {ready : Machine} :
    pace elapsed keys m = .ok n ready ↔
      ∃ keypad count pacer, Keypad.ofSnapshot? keys = some keypad ∧
        Pacer.instructionsFor elapsed m.pacer = .ok count pacer ∧
        n = count.toNat ∧ ready = { m with keypad, pacer } := by
  rw [pace_apply]
  cases Keypad.ofSnapshot? keys with
  | none => simp
  | some keypad =>
      cases Pacer.instructionsFor elapsed m.pacer with
      | error e left => simp
      | ok count pacer => simp [eq_comm]

theorem tickTrail_of_paced {count : Nat} {ready : Machine}
    (h : pace elapsed keys m = .ok count ready) :
    m.tickTrail stream elapsed keys = trail stream count ready := by
  unfold tickTrail
  rw [h]

/-- A tick takes steps only if it gets as far as that. -/
theorem paced_of_mem_tickTrail {t : TakenStep} (ht : t ∈ m.tickTrail stream elapsed keys) :
    ∃ count ready, pace elapsed keys m = .ok count ready ∧ t ∈ trail stream count ready := by
  unfold tickTrail at ht
  cases hpaced : pace elapsed keys m with
  | error stop left =>
      rw [hpaced] at ht
      cases ht
  | ok count ready =>
      rw [hpaced] at ht
      exact ⟨count, ready, rfl, ht⟩

theorem rests_of_paced {count : Nat} {ready : Machine}
    (h : pace elapsed keys m = .ok count ready) : Rests m ready := by
  obtain ⟨keypad, _, pacer, -, -, -, rfl⟩ := pace_eq_ok_iff.mp h
  rfl

theorem rests_of_unpaced {stop : Stop} {left : Machine}
    (h : pace elapsed keys m = .error stop left) : Rests m left := by
  rw [pace_apply] at h
  split at h
  · cases h
    rfl
  · split at h <;> cases h
    rfl

theorem tick_of_paced {count : Nat} {ready : Machine}
    (h : pace elapsed keys m = .ok count ready) :
    tick stream elapsed keys m =
      (steps stream count ready).andThen fun m => .going m.countDown := by
  unfold tick
  rw [h]

theorem tick_of_unpaced {stop : Stop} {left : Machine}
    (h : pace elapsed keys m = .error stop left) :
    tick stream elapsed keys m = .stopped left stop := by
  unfold tick
  rw [h]

/-- What the steps of a tick bring about and the count down keeps holds after the tick. -/
theorem holds_after_tick {P : Machine → Prop} {count : Nat} {ready : Machine}
    (h : pace elapsed keys m = .ok count ready)
    (hrun : P (steps stream count ready).machine) (hcount : ∀ m, P m → P m.countDown) :
    P (tick stream elapsed keys m).machine := by
  rw [tick_of_paced h]
  cases hstop : (steps stream count ready).stop with
  | some stop =>
      rw [Outcome.andThen_of_stop hstop]
      exact hrun
  | none =>
      rw [Outcome.machine_andThen hstop]
      exact hcount _ hrun

theorem linked_tickTrail (stream : RandomBytes) (elapsed : Number) (keys : Array Bool)
    (m : Machine) :
    Linked m (m.tickTrail stream elapsed keys) (tick stream elapsed keys m).machine := by
  unfold tickTrail
  cases hpaced : pace elapsed keys m with
  | error stop left =>
      rw [tick_of_unpaced hpaced]
      exact .nil (rests_of_unpaced hpaced)
  | ok count ready =>
      have hrun := (linked_trail stream count ready).rest_left (rests_of_paced hpaced)
      exact holds_after_tick hpaced hrun fun _ h => h.rest_right rfl

/-! ## The count of instructions -/

theorem ops_step (h : (m.step stream).stop = none) : (m.step stream).machine.ops = m.ops + 1 := by
  have hs := stepped stream m
  generalize m.step stream = o at hs h ⊢
  cases hs with
  | strayed _ => cases h
  | skipped _ _ => rfl
  | completed _ _ he =>
      have hshape := Instruction.execute_shape he
      rw [hshape]
      rfl
  | failed _ _ _ => cases h

/-- Steps that all return are all counted. -/
theorem ops_steps {n : Nat} (h : (steps stream n m).stop = none) :
    (steps stream n m).machine.ops = m.ops + (trail stream n m).length := by
  induction n generalizing m with
  | zero => rfl
  | succ n ih =>
      rw [steps_succ] at h ⊢
      unfold trail
      cases hstop : (m.step stream).stop with
      | some stop =>
          rw [Outcome.andThen_of_stop hstop, hstop] at h
          cases h
      | none =>
          rw [Outcome.stop_andThen hstop] at h
          rw [Outcome.machine_andThen hstop, ih h, ops_step hstop, List.length_cons]
          dsimp only
          omega

theorem ops_tick (h : (tick stream elapsed keys m).stop = none) :
    (tick stream elapsed keys m).machine.ops =
      m.ops + (m.tickTrail stream elapsed keys).length := by
  unfold tickTrail
  cases hpaced : pace elapsed keys m with
  | error stop left =>
      rw [tick_of_unpaced hpaced] at h
      cases h
  | ok count ready =>
      have hready : ready.ops = m.ops := (rests_of_paced hpaced).ops_eq
      rw [tick_of_paced hpaced] at h ⊢
      cases hstop : (steps stream count ready).stop with
      | some stop =>
          rw [Outcome.andThen_of_stop hstop, hstop] at h
          cases h
      | none =>
          rw [Outcome.machine_andThen hstop, ← hready]
          exact ops_steps hstop

end Machine

namespace Operation

/-- Steps and ticks run the program; the other operations only set it up. -/
def Runs : Operation → Prop
  | step _ | tick _ _ _ => True
  | _ => False

def trail (m : Machine) : Operation → List TakenStep
  | step stream => [⟨stream, m⟩]
  | tick stream elapsed keys => m.tickTrail stream elapsed keys
  | _ => []

theorem linked_trail {o : Operation} (h : o.Runs) (m : Machine) :
    Machine.Linked m (o.trail m) (o.perform m).machine := by
  cases o with
  | step stream => exact .cons (.refl m) (.nil (.refl _))
  | tick stream elapsed keys => exact m.linked_tickTrail stream elapsed keys
  | _ => exact h.elim

end Operation

namespace Machine

/-- The steps of some operations, each done whether or not one before it was stopped. -/
def trailAll (m : Machine) : List Operation → List TakenStep
  | [] => []
  | o :: operations => o.trail m ++ (o.perform m).machine.trailAll operations

theorem linked_trailAll {operations : List Operation} (h : ∀ o ∈ operations, o.Runs)
    (m : Machine) : Linked m (m.trailAll operations) (m.performAll operations) := by
  induction operations generalizing m with
  | nil => exact .nil (.refl m)
  | cons o operations ih =>
      have hfirst := Operation.linked_trail (h o (.head operations)) m
      exact hfirst.append (ih (fun o' ho' => h o' (.tail o ho')) _)

end Machine
end Chip8
