import Chip8.Loop
import Chip8.Proofs.Host.Activity

/-!
# Why activities fail

`FailsOnly` says of an activity that whenever it fails, the failure is of some kind; it is
closed under doing one thing after another. No activity that follows the preparation of a
start-up rejects it: devices fail because a call is refused, because the terminal is gone,
or because a value, a frame or a number is of no use, and the loop fails for these reasons,
for want of a clock reading, or because the machine stops.
-/
namespace Chip8
variable {σ α β : Type}

/-- Whenever the activity fails, the failure is of the kind `Q`. -/
def FailsOnly (Q : Failure → Prop) (x : EStateM Failure σ α) : Prop :=
  ∀ s e, failure? x s = some e → Q e

namespace FailsOnly
variable {Q : Failure → Prop} {x : EStateM Failure σ α} {f : α → EStateM Failure σ β}

theorem pure (a : α) : FailsOnly Q (Pure.pure a : EStateM Failure σ α) := nofun

theorem throw {e : Failure} (h : Q e) :
    FailsOnly Q (MonadExcept.throw e : EStateM Failure σ α) := by
  intro s e' herror
  cases herror
  exact h

theorem throw_bind {e : Failure} (h : Q e) :
    FailsOnly Q ((MonadExcept.throw e : EStateM Failure σ α) >>= f) := by
  intro s e' herror
  cases herror
  exact h

/-- What follows may rely on how its argument came about. -/
theorem bind_after (hx : FailsOnly Q x)
    (hf : ∀ a s after, x s = .ok a after → FailsOnly Q (f a)) : FailsOnly Q (x >>= f) := by
  intro s e h
  cases hresult : x s with
  | ok a after =>
      rw [failure?, bind_of_ok hresult] at h
      exact hf a s after hresult after e h
  | error e' after =>
      rw [failure?, bind_of_error hresult] at h
      exact hx s e ((failure?_of_error hresult).trans h)

theorem bind (hx : FailsOnly Q x) (hf : ∀ a, FailsOnly Q (f a)) : FailsOnly Q (x >>= f) :=
  hx.bind_after fun a _ _ _ => hf a

theorem get_bind {f : σ → EStateM Failure σ β} (hf : ∀ s, FailsOnly Q (f s)) :
    FailsOnly Q (get >>= f) :=
  fun s => hf s s

theorem modify (g : σ → σ) : FailsOnly Q (modify g : EStateM Failure σ Unit) := by
  intro s e he
  cases he

theorem ite {p : Prop} [Decidable p] {x y : EStateM Failure σ α} (hx : FailsOnly Q x)
    (hy : FailsOnly Q y) : FailsOnly Q (if p then x else y) := by
  split
  · exact hx
  · exact hy

/-- Something is done only under a condition, and what follows is done in any case. -/
theorem optional {p : Prop} [Decidable p] {x : EStateM Failure σ PUnit}
    {rest : PUnit → EStateM Failure σ β} (hx : FailsOnly Q x)
    (hrest : ∀ u, FailsOnly Q (rest u)) :
    FailsOnly Q (if p then x >>= rest else rest ⟨⟩) :=
  .ite (.bind hx hrest) (hrest ⟨⟩)

/-- An activity fails as another one does on the part of the state that it sees. -/
theorem seen {τ : Type} {y : EStateM Failure τ β} (hx : FailsOnly Q x) (view : τ → σ)
    (h : ∀ t, failure? y t = failure? x (view t)) : FailsOnly Q y :=
  fun t e he => hx (view t) e ((h t).symm.trans he)

end FailsOnly

/-- Whether it is the start-up that was rejected. -/
def Failure.isRejection : Failure → Bool
  | .rejected _ => true
  | _ => false

/-- Whatever makes the activity fail, it is not that the start-up is rejected. -/
abbrev Unrejecting (x : EStateM Failure σ α) : Prop :=
  FailsOnly (fun e => e.isRejection = false) x

namespace Host

theorem unrejecting_perform (c : HostCall) : Unrejecting (perform c) := by
  intro h e he
  cases hc : h.refuses c with
  | true =>
      rw [failure?_of_error (perform_of_refused hc)] at he
      cases he
      rfl
  | false =>
      rw [failure?_of_ok (perform_of_accepted hc)] at he
      cases he

theorem unrejecting_performAll (wanted : List HostCall) : Unrejecting (performAll wanted) := by
  induction wanted with
  | nil => exact .pure ()
  | cons c rest ih => exact .bind (unrejecting_perform c) fun _ => ih

theorem unrejecting_compute {result : Except Failure α}
    (h : ∀ e, result = .error e → e.isRejection = false) : Unrejecting (compute result) := by
  cases result with
  | ok a => exact .pure a
  | error e => exact .throw (h e rfl)

theorem unrejecting_readClock : Unrejecting readClock := by
  intro h e he
  unfold failure? at he
  rw [readClock_apply] at he
  cases hreadings : h.readings with
  | nil =>
      rw [hreadings] at he
      cases he
      rfl
  | cons t rest =>
      rw [hreadings] at he
      cases he

theorem unrejecting_nextTurn : Unrejecting nextTurn := by
  intro h e he
  rw [failure?_of_ok (nextTurn_apply h)] at he
  cases he

theorem unrejecting_terminalSize : Unrejecting terminalSize := by
  intro h e he
  obtain ⟨size, sizes, hsize⟩ := h.terminalSize_ok
  rw [failure?_of_ok hsize] at he
  cases he

end Host

section Device
variable {δ : Type}

theorem unrejecting_onHost {x : HostM α} (hx : Unrejecting x) :
    Unrejecting (onHost (δ := δ) x) := by
  refine hx.seen Attached.host fun s => ?_
  unfold failure? onHost
  cases x s.host <;> rfl

theorem unrejecting_call (c : HostCall) : Unrejecting (onHost (δ := δ) (Host.perform c)) :=
  unrejecting_onHost (Host.unrejecting_perform c)

theorem unrejecting_adjust (f : δ → δ) : Unrejecting (adjust f) := .modify _

theorem unrejecting_current_bind {f : δ → DeviceM δ β} (hf : ∀ d, Unrejecting (f d)) :
    Unrejecting (current >>= f) :=
  fun s => hf s.device s

end Device

namespace Display

theorem isRejection_of_cellCount {scale : OptionValue} {e : Failure}
    (h : cellCount scale = .error e) : e.isRejection = false := by
  unfold cellCount at h
  split at h
  · cases hentries : Storage.entries 1 _ with
    | ok count =>
        rw [hentries] at h
        cases h
    | error error =>
        rw [hentries] at h
        cases h
        rfl
  · cases h
    rfl

theorem isRejection_of_windowSize {scale : OptionValue} {e : Failure}
    (h : windowSize scale = .error e) : e.isRejection = false := by
  unfold windowSize at h
  split at h
  · cases h
  · cases h
    rfl

theorem unrejecting_acquire (kind : FrontEnd) (scale : OptionValue) :
    Unrejecting (acquire kind scale) := by
  unfold acquire
  cases kind with
  | null => exact .pure _
  | window =>
      refine .bind (Host.unrejecting_perform _) fun _ => ?_
      refine .bind (Host.unrejecting_perform _) fun _ => ?_
      refine .bind (Host.unrejecting_compute fun _ => isRejection_of_windowSize) fun size => ?_
      exact .bind (Host.unrejecting_perform _) fun _ => .pure _
  | terminal =>
      refine .bind (Host.unrejecting_compute fun _ => isRejection_of_cellCount) fun count => ?_
      refine .bind (Host.unrejecting_perform _) fun _ => ?_
      refine .bind (Host.unrejecting_perform _) fun _ => ?_
      refine .bind (Host.unrejecting_perform _) fun _ => ?_
      refine .bind (Host.unrejecting_perform _) fun _ => ?_
      exact .bind (Host.unrejecting_perform _) fun _ => .pure _

theorem unrejecting_within (check : Except Storage.Error Nat) : Unrejecting (within check) := by
  refine unrejecting_onHost (Host.unrejecting_compute fun e he => ?_)
  cases check with
  | ok n => cases he
  | error error =>
      cases he
      rfl

theorem unrejecting_setResolution (width height : Int) :
    Unrejecting (setResolution width height) := by
  refine unrejecting_current_bind fun d => ?_
  have hsize : Unrejecting (adjust fun d : Display => { d with width, height }) :=
    unrejecting_adjust _
  cases d.surface with
  | null => exact hsize
  | window _ _ => exact .bind (unrejecting_within _) fun _ => hsize
  | terminal pad =>
      refine .bind (unrejecting_call _) fun _ => .bind (unrejecting_adjust _) fun _ => ?_
      refine .bind (unrejecting_within _) fun _ => .bind (unrejecting_adjust _) fun _ => ?_
      exact hsize

theorem unrejecting_showPad : Unrejecting showPad := by
  refine unrejecting_current_bind fun d => ?_
  cases d.surface with
  | null => exact .pure ()
  | window width height => exact .pure ()
  | terminal pad =>
      refine .bind (unrejecting_onHost Host.unrejecting_terminalSize) ?_
      rintro ⟨height, width⟩
      have hshow : Unrejecting
          (if pad.present = true then
            onHost (Host.perform (.terminal (.showPad (height - 1) (width - 1))))
          else throw (.padGone "refresh") : DeviceM Display Unit) :=
        .ite (unrejecting_call _) (.throw rfl)
      refine .ite (.bind (unrejecting_call _) fun _ => .get_bind fun s => ?_) hshow
      refine .optional (unrejecting_call _) fun _ => ?_
      exact .bind (unrejecting_call _) fun _ => .bind (unrejecting_adjust _) fun _ => hshow

theorem unrejecting_draw (pixels : Array Bool) : Unrejecting (draw pixels) := by
  refine unrejecting_current_bind fun d => .optional (.throw rfl) fun _ => ?_
  refine .bind (unrejecting_adjust _) fun _ => ?_
  cases d.surface with
  | null => exact .pure ()
  | window width height =>
      exact .ite (.pure ()) (unrejecting_onHost (Host.unrejecting_performAll _))
  | terminal pad =>
      refine .optional (.throw rfl) fun _ => ?_
      refine .bind (unrejecting_onHost (Host.unrejecting_performAll _)) fun _ => ?_
      exact .bind (unrejecting_adjust _) fun _ => unrejecting_showPad

theorem unrejecting_setTitle (text : String) : Unrejecting (setTitle text) := by
  refine unrejecting_current_bind fun d => ?_
  cases d.surface with
  | null => exact .pure ()
  | window width height => exact unrejecting_call _
  | terminal pad =>
      exact .ite (.bind (unrejecting_within _) fun _ => unrejecting_call _) (.pure ())

theorem unrejecting_release : Unrejecting release := by
  refine unrejecting_current_bind fun d => ?_
  cases d.surface with
  | null => exact .pure ()
  | window width height => exact unrejecting_call _
  | terminal pad =>
      refine .bind (unrejecting_adjust _) fun _ => .bind (unrejecting_call _) fun _ => ?_
      refine .bind (unrejecting_call _) fun _ => .bind (unrejecting_onHost ?_) fun _ =>
        unrejecting_call _
      intro h e he
      rw [failure?_of_ok (Host.attempt_apply _ h)] at he
      cases he

end Display

namespace Speaker

theorem unrejecting_acquire (kind : FrontEnd) : Unrejecting (acquire kind) := by
  unfold acquire
  cases kind with
  | window => exact .bind (Host.unrejecting_performAll _) fun _ => .pure _
  | _ => exact .pure _

theorem unrejecting_gate (on : Bool) : Unrejecting (gate on) :=
  unrejecting_current_bind fun _ =>
    .bind (unrejecting_onHost (Host.unrejecting_performAll _)) fun _ => unrejecting_adjust _

theorem unrejecting_release : Unrejecting release := by
  refine unrejecting_current_bind fun s => ?_
  cases s.kind with
  | window => exact unrejecting_onHost (Host.unrejecting_performAll _)
  | _ => exact .pure ()

end Speaker

namespace Controls

theorem unrejecting_feed (codes : List Int) : Unrejecting (feed codes) := by
  refine unrejecting_current_bind fun c => ?_
  cases c with
  | terminal layout keyboard =>
      dsimp only
      generalize keyboard.feed layout codes = result
      obtain ⟨fed, keyboard⟩ := result
      refine .bind (unrejecting_adjust _) fun _ => ?_
      cases fed with
      | ok fed => exact .pure fed
      | error e => exact .throw rfl
  | _ => exact .pure _

theorem unrejecting_poll : Unrejecting poll := by
  refine .bind (unrejecting_onHost Host.unrejecting_nextTurn) fun turn => ?_
  refine unrejecting_current_bind fun c => ?_
  cases c with
  | null layout => exact .pure false
  | rehearsed => exact .pure turn.quit
  | window layout => exact .pure _
  | terminal layout keyboard =>
      -- The queue is drained in the same way whether or not the reader was fed first.
      refine .ite (.bind (unrejecting_feed _) fun _ => ?_) ?_
      all_goals
        refine unrejecting_current_bind fun c => ?_
        cases c with
        | terminal layout keyboard =>
            refine .get_bind fun s => ?_
            generalize keyboard.poll s.host.now = result
            obtain ⟨quit, keyboard⟩ := result
            refine .bind (unrejecting_adjust _) fun _ => ?_
            cases quit with
            | ok quit => exact .pure quit
            | error e => exact .throw rfl
        | _ => exact .pure false

end Controls

namespace Session

theorem unrejecting_withHost {x : HostM α} (hx : Unrejecting x) : Unrejecting (withHost x) := by
  refine hx.seen Session.host fun s => ?_
  unfold failure? withHost
  cases x s.host <;> rfl

theorem unrejecting_withDisplay {x : DeviceM Display α} (hx : Unrejecting x) :
    Unrejecting (withDisplay x) := by
  refine hx.seen (fun s => ⟨s.host, s.display⟩) fun s => ?_
  unfold failure? withDisplay
  cases x ⟨s.host, s.display⟩ <;> rfl

theorem unrejecting_withControls {x : DeviceM Controls α} (hx : Unrejecting x) :
    Unrejecting (withControls x) := by
  refine hx.seen (fun s => ⟨s.host, s.controls⟩) fun s => ?_
  unfold failure? withControls
  cases x ⟨s.host, s.controls⟩ <;> rfl

theorem unrejecting_withSpeaker {x : DeviceM Speaker α} (hx : Unrejecting x) :
    Unrejecting (withSpeaker x) := by
  refine hx.seen (fun s => ⟨s.host, s.speaker⟩) fun s => ?_
  unfold failure? withSpeaker
  cases x ⟨s.host, s.speaker⟩ <;> rfl

theorem unrejecting_withMachine (x : Machine → Outcome) : Unrejecting (withMachine x) := by
  intro s e he
  unfold failure? withMachine at he
  dsimp only at he
  cases hstop : (x s.machine).stop with
  | none =>
      rw [hstop] at he
      cases he
  | some stop =>
      rw [hstop] at he
      cases he
      rfl

theorem unrejecting_number (result : Except Number.Error α) :
    Unrejecting (Session.compute result) := by
  cases result with
  | ok a => exact .pure a
  | error e => exact .throw rfl

end Session

namespace Loop
open Session
variable (stream : RandomBytes)

theorem unrejecting_repaint : Unrejecting repaint := by
  refine .get_bind fun s => .bind (.modify _) fun _ => .ite ?_ (.pure _)
  exact .bind (unrejecting_withHost (Host.unrejecting_perform _)) fun _ =>
    .bind (unrejecting_withDisplay (Display.unrejecting_draw _)) fun _ => .pure _

theorem unrejecting_report (frames : Nat) : Unrejecting (report frames) :=
  .get_bind fun _ => .bind (unrejecting_withHost (Host.unrejecting_perform _)) fun _ =>
    .bind (unrejecting_withDisplay (Display.unrejecting_setTitle _)) fun _ => .modify _

theorem unrejecting_work (p : Pace) : Unrejecting (work stream p) := by
  refine .bind (unrejecting_withHost Host.unrejecting_readClock) fun now => ?_
  refine .bind (.bind (unrejecting_number _) fun _ => .get_bind fun _ =>
    unrejecting_withMachine _) fun _ => ?_
  refine .bind (.get_bind fun _ => .bind (unrejecting_withHost (Host.unrejecting_perform _))
    fun _ => unrejecting_withSpeaker (Speaker.unrejecting_gate _)) fun _ => ?_
  refine .bind unrejecting_repaint fun painted => .ite ?_ (.pure _)
  exact .bind (unrejecting_number _) fun _ => .bind (unrejecting_report _) fun _ => .pure _

theorem unrejecting_wait (tickTime : Number) : Unrejecting (wait tickTime) := by
  refine .bind (unrejecting_number _) fun due => ?_
  refine .bind (unrejecting_withHost Host.unrejecting_readClock) fun now => ?_
  refine .bind (unrejecting_number _) fun delay => .ite ?_ (.pure _)
  exact unrejecting_withHost (Host.unrejecting_perform _)

theorem unrejecting_iterate (p : Pace) : Unrejecting (iterate stream p) := by
  refine .bind (.bind (unrejecting_withControls Controls.unrejecting_poll) fun quit =>
    .ite ?_ (.bind (unrejecting_work stream p) fun _ => .pure _)) fun next => ?_
  · exact .bind (.modify _) fun _ => .pure _
  · cases next with
    | none => exact .pure none
    | some p => exact .bind (unrejecting_wait _) fun _ => .pure _

theorem unrejecting_iterations (n : Nat) (p : Pace) : Unrejecting (iterations stream n p) := by
  induction n generalizing p with
  | zero => exact .pure ()
  | succ n ih =>
      refine .bind (unrejecting_iterate stream p) fun next => ?_
      cases next with
      | none => exact .pure ()
      | some p => exact ih p

theorem unrejecting_run (maxTicks : Option Int) : Unrejecting (run stream maxTicks) := by
  refine .bind ?_ fun p => .get_bind fun s => unrejecting_iterations stream _ p
  refine .bind (unrejecting_withHost Host.unrejecting_readClock) fun now => ?_
  exact .bind (unrejecting_number _) fun _ => .pure _

end Loop
end Chip8
