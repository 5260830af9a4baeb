import Chip8.Proofs.Machine.Dispatch
import Chip8.Proofs.Machine.Trail
import Mathlib.Data.List.Forall2

/-!
# Tracing

A machine that is traced prints a line before each instruction it knows. Apart from
these lines it does what it would do untraced: the same operations, in any order and
however they end, leave the same machines behind, log the same records and stop for
the same reasons.

The lines of a run are those of its steps, in their order. Each shows the machine as
it was before its instruction, which may halt it afterwards.
-/
namespace Chip8

namespace Outcome

def lines (o : Outcome) : List String := o.remarks.toList.filterMap Remark.line?

def records (o : Outcome) : List Record := o.remarks.toList.filterMap Remark.record?

end Outcome

namespace Machine

def muted (m : Machine) : Machine := { m with traced := false }

/-- How an activity ends, on a machine that prints no lines. -/
def mutedEnd {ε α : Type} : EStateM.Result ε Machine α → EStateM.Result ε Machine α
  | .ok a m => .ok a m.muted
  | .error e m => .error e m.muted

def outcomes (m : Machine) : List Operation → List Outcome
  | [] => []
  | o :: operations => o.perform m :: (o.perform m).machine.outcomes operations

def traceLine (m : Machine) (word : Nat) (i : Instruction) : String :=
  { m with origin := m.pc, opcode := word }.stateLine i.mnemonic

end Machine

/-- The outcome without its lines, on a machine that prints none. -/
def Outcome.muted (o : Outcome) : Outcome :=
  ⟨o.machine.muted, o.remarks.filter fun r => r.line?.isNone, o.stop⟩

namespace Outcome
variable {o : Outcome} {next next' : Machine → Outcome}

theorem muted_andThen (h : ∀ m : Machine, next' m.muted = (next m).muted) :
    o.muted.andThen next' = (o.andThen next).muted := by
  cases hstop : o.stop with
  | some stop =>
      have hmuted : o.muted.stop = some stop := hstop
      rw [andThen_of_stop hmuted, andThen_of_stop hstop]
  | none =>
      have hmuted : o.muted.stop = none := hstop
      have hnext : next' o.muted.machine = (next o.machine).muted := h o.machine
      unfold andThen
      simp only [hstop, hmuted, hnext]
      simp only [muted]
      rw [Array.filter_append (Array.size_append ..)]

theorem lines_muted (o : Outcome) : o.muted.lines = [] := by
  unfold lines muted
  rw [List.filterMap_eq_nil_iff]
  intro r hr
  simpa using (Array.mem_filter.mp (Array.mem_toList_iff.mp hr)).2

theorem records_muted (o : Outcome) : o.muted.records = o.records := by
  unfold records muted
  rw [Array.toList_filter, List.filterMap_filter]
  congr 1
  funext r
  cases r <;> rfl

theorem lines_andThen (h : o.stop = none) :
    (o.andThen next).lines = o.lines ++ (next o.machine).lines := by
  unfold lines andThen
  simp only [h, Array.toList_append, List.filterMap_append]

end Outcome

namespace Machine

theorem callTo_muted (m : Machine) (address : Int) :
    callTo address m.muted = mutedEnd (callTo address m) := by
  simp only [callTo_apply, muted]
  split <;> rfl

theorem returnFromCall_muted (m : Machine) :
    returnFromCall m.muted = mutedEnd (returnFromCall m) := by
  simp only [returnFromCall_apply, muted]
  split <;> rfl

theorem drawSprite_muted (m : Machine) (x y n : Fin 16) :
    drawSprite x y n m.muted = mutedEnd (drawSprite x y n m) := by
  rw [drawSprite_apply, drawSprite_apply]
  cases hread : m.memory.readBlock m.i n.val <;> simp only [muted, hread] <;> rfl

theorem getDelay_muted (m : Machine) (x : Fin 16) :
    getDelay x m.muted = mutedEnd (getDelay x m) := by
  simp only [getDelay_apply, muted]
  split <;> rfl

theorem waitForKey_muted (m : Machine) (x : Fin 16) :
    m.muted.waitForKey x = (m.waitForKey x).muted := by
  unfold waitForKey
  cases hkey : m.keypad.firstDown? <;> simp only [muted, hkey]
  rfl

theorem store_muted (m : Machine) (block : Array UInt8) :
    store block m.muted = mutedEnd (store block m) := by
  simp only [store_apply, muted]
  split <;> rfl

theorem loadRegisters_muted (m : Machine) (x : Fin 16) :
    loadRegisters x m.muted = mutedEnd (loadRegisters x m) := by
  rw [loadRegisters_apply, loadRegisters_apply]
  cases hread : m.memory.readBlock m.i (x.val + 1 : Nat) with
  | error e =>
      simp only [muted, hread]
      rfl
  | ok block =>
      simp only [muted, hread]
      split <;> rfl

/-- No instruction looks at whether the machine is traced. -/
theorem execute_muted (stream : RandomBytes) (m : Machine) (i : Instruction) :
    i.execute stream m.muted = mutedEnd (i.execute stream m) := by
  cases i with
  | call a => exact m.callTo_muted a.val
  | ret => exact m.returnFromCall_muted
  | draw x y n => exact m.drawSprite_muted x y n
  | getDelay x => exact m.getDelay_muted x
  | waitForKey x => exact congrArg (EStateM.Result.ok ()) (m.waitForKey_muted x)
  | storeDigits x =>
      rw [Instruction.execute_storeDigits, Instruction.execute_storeDigits]
      exact m.store_muted (decimalDigits (m.reg x))
  | storeRegisters x =>
      rw [Instruction.execute_storeRegisters, Instruction.execute_storeRegisters]
      exact m.store_muted (m.v.toArray.extract 0 (x.val + 1))
  | loadRegisters x => exact m.loadRegisters_muted x
  | skipIfByte | skipUnlessByte | skipIfSame | skipUnlessSame | skipIfKey | skipUnlessKey =>
      show EStateM.Result.ok () (m.muted.skipIf _) = EStateM.Result.ok () (m.skipIf _).muted
      rw [skipIf_eq, skipIf_eq]
      rfl
  | _ => rfl

theorem remark?_muted (m : Machine) :
    m.muted.remark?.toArray = m.remark?.toArray.filter fun r => r.line?.isNone := by
  have hopcode : m.muted.opcode = m.opcode := rfl
  have htraced : m.muted.traced = false := rfl
  unfold remark?
  rw [hopcode, htraced]
  cases Instruction.find? m.opcode with
  | none => rfl
  | some i => cases m.traced <;> rfl

theorem said_muted (m : Machine) (word : Nat) :
    m.muted.said word = (m.said word).filter fun r => r.line?.isNone :=
  (m.fetched word).remark?_muted

theorem step_muted (stream : RandomBytes) (m : Machine) :
    m.muted.step stream = (m.step stream).muted := by
  cases hw : m.memory.word? m.pc with
  | none =>
      have hmuted : m.muted.memory.word? m.muted.pc = none := hw
      rw [step_of_word?_eq_none hw, step_of_word?_eq_none hmuted]
      rfl
  | some word =>
      have hmuted : m.muted.memory.word? m.muted.pc = some word := hw
      rw [step_of_word?_eq_some hw, step_of_word?_eq_some hmuted, said_muted]
      cases Instruction.ofOpcode? word with
      | none => rfl
      | some i =>
          have he : i.execute stream (m.muted.fetched word) =
              mutedEnd (i.execute stream (m.fetched word)) :=
            execute_muted stream (m.fetched word) i
          dsimp only
          rw [he]
          cases i.execute stream (m.fetched word) <;> rfl

theorem steps_muted (stream : RandomBytes) (n : Nat) (m : Machine) :
    steps stream n m.muted = (steps stream n m).muted := by
  induction n generalizing m with
  | zero => rfl
  | succ n ih =>
      rw [steps_succ, steps_succ, step_muted]
      exact Outcome.muted_andThen ih

theorem pace_muted (elapsed : Number) (keys : Array Bool) (m : Machine) :
    pace elapsed keys m.muted = mutedEnd (pace elapsed keys m) := by
  have hpacer : m.muted.pacer = m.pacer := rfl
  rw [pace_apply, pace_apply, hpacer]
  cases Keypad.ofSnapshot? keys with
  | none => rfl
  | some keypad =>
      dsimp only
      cases Pacer.instructionsFor elapsed m.pacer <;> rfl

theorem tick_muted (stream : RandomBytes) (elapsed : Number) (keys : Array Bool) (m : Machine) :
    m.muted.tick stream elapsed keys = (m.tick stream elapsed keys).muted := by
  unfold tick
  rw [pace_muted]
  cases pace elapsed keys m with
  | error stop left => rfl
  | ok count ready =>
      show (steps stream count ready.muted).andThen _ = _
      rw [steps_muted]
      exact Outcome.muted_andThen fun _ => rfl

theorem load_muted (program : Array UInt8) (m : Machine) :
    m.muted.load program = (m.load program).muted := by
  rw [load_eq, load_eq]
  by_cases hfits : program.size ≤ maxProgramSize
  · rw [if_pos hfits, if_pos hfits]
    rfl
  · rw [if_neg hfits, if_neg hfits]
    rfl

theorem perform_muted (o : Operation) (m : Machine) :
    o.perform m.muted = (o.perform m).muted := by
  cases o with
  | load program => exact m.load_muted program
  | step stream => exact step_muted stream m
  | tick stream elapsed keys => exact tick_muted stream elapsed keys m
  | countDown => rfl
  | press keys =>
      unfold Operation.perform
      dsimp only
      cases Keypad.ofSnapshot? keys <;> rfl
  | takeChanged => rfl

theorem outcomes_muted (operations : List Operation) (m : Machine) :
    m.muted.outcomes operations = (m.outcomes operations).map Outcome.muted := by
  induction operations generalizing m with
  | nil => rfl
  | cons o operations ih =>
      have hrest : (o.perform m).muted.machine.outcomes operations = _ := ih (o.perform m).machine
      simp only [outcomes, List.map_cons, perform_muted, hrest]

theorem Rests.traced_eq {m after : Machine} (h : Rests m after) : after.traced = m.traced := by
  unfold Rests at h
  rw [h]

theorem Linked.traced_before {m after : Machine} {trail : List TakenStep}
    (h : Linked m trail after) {t : TakenStep} (ht : t ∈ trail) :
    t.before.traced = m.traced := by
  induction h with
  | nil => cases ht
  | @cons m after first trail hrest _ ih =>
      cases ht with
      | head => exact hrest.traced_eq
      | tail _ ht =>
          calc
            t.before.traced = first.after.traced := ih ht
            _ = first.before.traced := (step_keeps ..).2.2
            _ = m.traced := hrest.traced_eq

theorem traced_perform (o : Operation) (m : Machine) :
    (o.perform m).machine.traced = m.traced := by
  cases o with
  | load program =>
      have hload : (m.load program).machine.traced = m.traced := by
        rw [load_eq]
        split <;> simp only [Outcome.stopped, fontLaid, programLaid]
      exact hload
  | step stream => exact (step_keeps stream m).2.2
  | tick stream elapsed keys =>
      exact tick_preserves (P := fun after => after.traced = m.traced) elapsed keys
        (fun _ _ h => h) (fun _ _ h => h) (fun _ h => (step_keeps ..).2.2.trans h)
        (fun _ h => h) rfl
  | countDown => rfl
  | press keys =>
      unfold Operation.perform
      dsimp only
      cases Keypad.ofSnapshot? keys <;> rfl
  | takeChanged => rfl

theorem traced_before {operations : List Operation} {m : Machine} {t : TakenStep}
    (ht : t ∈ m.trailAll operations) : t.before.traced = m.traced := by
  induction operations generalizing m with
  | nil => cases ht
  | cons o operations ih =>
      rcases List.mem_append.mp ht with ho | hrest
      · cases o with
        | step stream =>
            have hlinked : Linked m [⟨stream, m⟩] _ := .cons (.refl m) (.nil (.refl _))
            exact hlinked.traced_before ho
        | tick stream elapsed keys =>
            have hlinked := m.linked_tickTrail stream elapsed keys
            exact hlinked.traced_before ho
        | _ => cases ho
      · exact (ih hrest).trans (traced_perform o m)

section Lines
variable {stream : RandomBytes} {m : Machine} {word : Nat}

theorem remarks_step (hw : m.memory.word? m.pc = some word) :
    (m.step stream).remarks = m.said word := by
  rw [step_of_word?_eq_some hw]
  cases Instruction.ofOpcode? word with
  | none => rfl
  | some i =>
      dsimp only
      cases i.execute stream (m.fetched word) <;> rfl

theorem lines_step_of_unfetched (hw : m.memory.word? m.pc = none) :
    (m.step stream).lines = [] := by
  rw [step_of_word?_eq_none hw]
  rfl

theorem lines_step_of_unknown (hw : m.memory.word? m.pc = some word)
    (hunknown : ∀ i, ¬ Instruction.StandsFor word i) : (m.step stream).lines = [] := by
  have hnone : Instruction.ofOpcode? word = none :=
    (Instruction.ofOpcode?_eq_none_iff (Memory.word?_lt hw)).mpr hunknown
  have hsaid : m.said word = #[.skipped word m.pc] := by
    unfold said remark?
    simp only [Instruction.find?_eq, fetched, hnone]
    rfl
  unfold Outcome.lines
  rw [remarks_step hw, hsaid]
  rfl

/-- The line tells of the machine before its instruction, whatever becomes of that. -/
theorem lines_step_of_known {i : Instruction} (htraced : m.traced = true)
    (hw : m.memory.word? m.pc = some word) (hi : Instruction.StandsFor word i) :
    (m.step stream).lines = [m.traceLine word i] := by
  have hsaid : m.said word = (m.fetched word).shown i := remark?_of_known hi.ofOpcode?
  have hshown : (m.fetched word).shown i = #[.printed (m.traceLine word i)] := if_pos htraced
  unfold Outcome.lines
  rw [remarks_step hw, hsaid, hshown]
  rfl

theorem lines_steps (n : Nat) (m : Machine) :
    (steps stream n m).lines = (trail stream n m).flatMap fun t => t.outcome.lines := by
  induction n generalizing m with
  | zero => rfl
  | succ n ih =>
      rw [steps_succ]
      unfold trail
      cases hstop : (m.step stream).stop with
      | some stop =>
          rw [Outcome.andThen_of_stop hstop]
          exact (List.append_nil _).symm
      | none =>
          rw [Outcome.lines_andThen hstop, ih]
          rfl

theorem lines_tick (elapsed : Number) (keys : Array Bool) (m : Machine) :
    (m.tick stream elapsed keys).lines =
      (m.tickTrail stream elapsed keys).flatMap fun t => t.outcome.lines := by
  unfold tickTrail
  cases hpaced : pace elapsed keys m with
  | error stop left =>
      rw [tick_of_unpaced hpaced]
      rfl
  | ok count ready =>
      rw [tick_of_paced hpaced]
      dsimp only
      rw [← lines_steps]
      cases hstop : (steps stream count ready).stop with
      | some stop => rw [Outcome.andThen_of_stop hstop]
      | none =>
          rw [Outcome.lines_andThen hstop]
          exact List.append_nil _

theorem lines_perform (o : Operation) (m : Machine) :
    (o.perform m).lines = (o.trail m).flatMap fun t => t.outcome.lines := by
  cases o with
  | load program =>
      have hload : (m.load program).lines = [] := by
        rw [load_eq]
        split <;> rfl
      exact hload
  | step stream => exact (List.append_nil _).symm
  | tick stream elapsed keys => exact lines_tick elapsed keys m
  | countDown => rfl
  | press keys =>
      unfold Operation.perform
      dsimp only
      cases Keypad.ofSnapshot? keys <;> rfl
  | takeChanged => rfl

theorem lines_outcomes (operations : List Operation) (m : Machine) :
    (m.outcomes operations).flatMap Outcome.lines =
      (m.trailAll operations).flatMap fun t => t.outcome.lines := by
  induction operations generalizing m with
  | nil => rfl
  | cons o operations ih =>
      simp only [outcomes, trailAll, List.flatMap_cons, List.flatMap_append, ih, lines_perform]

end Lines

/-- Tracing changes nothing but what is printed, and that is a line for each step whose
word stands for an instruction. -/
theorem tracing_only_prints (m : Machine) (operations : List Operation) :
    let on := { m with traced := true }
    let off := { m with traced := false }
    List.Forall₂ (fun o o' =>
        o'.machine = { o.machine with traced := false } ∧ o'.stop = o.stop ∧
          o'.records = o.records ∧ o'.lines = [])
      (on.outcomes operations) (off.outcomes operations) ∧
    (on.outcomes operations).flatMap Outcome.lines =
      (on.trailAll operations).flatMap (fun t => t.outcome.lines) ∧
    ∀ t ∈ on.trailAll operations,
      (t.before.memory.word? t.before.pc = none → t.outcome.lines = []) ∧
      ∀ word, t.before.memory.word? t.before.pc = some word →
        ((∀ i, ¬ Instruction.StandsFor word i) → t.outcome.lines = []) ∧
        ∀ i, Instruction.StandsFor word i → t.outcome.lines = [t.before.traceLine word i] := by
  intro on off
  have hmuted : off.outcomes operations = (on.outcomes operations).map Outcome.muted :=
    outcomes_muted operations on
  refine ⟨?_, lines_outcomes operations on, fun t ht => ⟨?_, fun word hw => ⟨?_, fun i hi => ?_⟩⟩⟩
  · rw [hmuted, List.forall₂_map_right_iff, List.forall₂_same]
    intro o _
    exact ⟨rfl, rfl, o.records_muted, o.lines_muted⟩
  · intro hw
    exact lines_step_of_unfetched hw
  · intro hunknown
    exact lines_step_of_unknown hw hunknown
  · have htraced : t.before.traced = true := traced_before ht
    exact lines_step_of_known htraced hw hi

end Machine
end Chip8
