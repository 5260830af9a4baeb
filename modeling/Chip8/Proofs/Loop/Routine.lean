import Chip8.Loop
import Chip8.Proofs.Host.Devices

/-!
# The main loop opens and closes nothing

Whatever the loop does, and wherever it fails, it makes routine calls only: it opens
and closes no device, and the display and the speaker stay of their kinds.
-/
namespace Chip8

/-- Every call but those that open or close something. -/
def HostCall.isRoutine : HostCall → Bool
  | .terminal .acquire | .terminal .release => false
  | .window .acquire | .window .release => false
  | .mixer .acquire | .mixer .release => false
  | _ => true

abbrev HostCall.Routine (c : HostCall) : Prop := c.isRoutine = true

theorem HostCall.Serves.routine {c : HostCall} (h : c.Serves) : c.Routine := by
  unfold HostCall.Serves HostCall.isService at h
  unfold HostCall.Routine HostCall.isRoutine
  split at h <;> simp_all

namespace Session
variable {α β : Type} {display speaker : FrontEnd}

def HasKinds (display speaker : FrontEnd) (s : Session) : Prop :=
  s.display.kind = display ∧ s.speaker.kind = speaker

/-- An activity in the course of a session: it opens and closes nothing. -/
abbrev Proceeds (display speaker : FrontEnd) (x : SessionM α) : Prop :=
  Keeps (HasKinds display speaker) HostCall.Routine x

theorem proceeds_withHost {x : HostM α} (hx : Host.Makes HostCall.Routine x) :
    Proceeds display speaker (withHost x) :=
  keeps_withHost (fun _ _ hs => hs) hx

theorem proceeds_perform {c : HostCall} (hc : c.Routine) :
    Proceeds display speaker (withHost (Host.perform c)) :=
  proceeds_withHost (Host.makes_perform hc)

theorem proceeds_withDisplay {x : DeviceM Display α} (hx : Display.Works display x) :
    Proceeds display speaker (withDisplay x) := by
  intro s hs
  rw [left_withDisplay]
  obtain ⟨hgrew, hkind⟩ := hx ⟨s.host, s.display⟩ hs.1
  exact ⟨hgrew.mono fun _ => HostCall.Serves.routine, hkind, hs.2⟩

theorem proceeds_withSpeaker {x : DeviceM Speaker α}
    (hx : Keeps (fun s : Attached Speaker => s.device.kind = speaker) HostCall.Serves x) :
    Proceeds display speaker (withSpeaker x) := by
  intro s hs
  rw [left_withSpeaker]
  obtain ⟨hgrew, hkind⟩ := hx ⟨s.host, s.speaker⟩ hs.2
  exact ⟨hgrew.mono fun _ => HostCall.Serves.routine, hs.1, hkind⟩

theorem proceeds_withControls {x : DeviceM Controls α} (hx : Controls.Listens x) :
    Proceeds display speaker (withControls x) := by
  intro s hs
  rw [left_withControls]
  obtain ⟨hgrew, -⟩ := hx ⟨s.host, s.controls⟩ trivial
  exact ⟨hgrew.mono fun _ => False.elim, hs⟩

theorem proceeds_withMachine (x : Machine → Outcome) :
    Proceeds display speaker (withMachine x) := by
  intro s hs
  rw [left_withMachine]
  exact ⟨.of_same rfl rfl List.suffix_rfl, hs⟩

theorem proceeds_compute (result : Except Number.Error α) :
    Proceeds display speaker (compute result) := by
  cases result with
  | ok a => exact .pure a
  | error e => exact .throw _

theorem proceeds_modify {f : Session → Session} (hhost : ∀ s, (f s).host = s.host)
    (hdisplay : ∀ s, (f s).display = s.display) (hspeaker : ∀ s, (f s).speaker = s.speaker) :
    Proceeds display speaker (modify f) :=
  .modify hhost fun s hs => ⟨hdisplay s ▸ hs.1, hspeaker s ▸ hs.2⟩

/-- What is looked at are the kinds of the devices in use. -/
abbrev Kinds (J : FrontEnd → FrontEnd → Prop) (s : Session) : Prop :=
  J s.display.kind s.speaker.kind

theorem Proceeds.keeps {J : FrontEnd → FrontEnd → Prop} {x : SessionM α}
    (hx : ∀ display speaker, Proceeds display speaker x) :
    Keeps (Kinds J) HostCall.Routine x := by
  intro s hs
  obtain ⟨hgrew, hdisplay, hspeaker⟩ := hx s.display.kind s.speaker.kind s ⟨rfl, rfl⟩
  refine ⟨hgrew, ?_⟩
  show J _ _
  rw [hdisplay, hspeaker]
  exact hs

theorem keeps_releaseSpeaker {J : FrontEnd → FrontEnd → Prop} {P : HostCall → Prop}
    (hP : ∀ refuses display speaker, J display speaker →
      ∀ c ∈ Speaker.closingCalls refuses speaker, P c) :
    Keeps (Kinds J) P (withSpeaker Speaker.release) := by
  intro s hs
  rw [left_withSpeaker]
  constructor
  · show Host.Grew P s.host (left Speaker.release ⟨s.host, s.speaker⟩).host
    rw [Speaker.host_left_release]
    exact .of_tell (hP _ _ _ hs)
  · show J s.display.kind (left Speaker.release ⟨s.host, s.speaker⟩).device.kind
    rw [Speaker.kind_left_release]
    exact hs

theorem keeps_releaseDisplay {J : FrontEnd → FrontEnd → Prop} {P : HostCall → Prop}
    (hP : ∀ refuses display speaker, J display speaker →
      ∀ c ∈ Display.closingCalls refuses display, P c) :
    Keeps (Kinds J) P (withDisplay Display.release) := by
  intro s hs
  rw [left_withDisplay]
  constructor
  · show Host.Grew P s.host (left Display.release ⟨s.host, s.display⟩).host
    rw [Display.host_left_release]
    exact .of_tell (hP _ _ _ hs)
  · show J (left Display.release ⟨s.host, s.display⟩).device.kind s.speaker.kind
    rw [Display.kind_left_release]
    exact hs

end Session

namespace Loop
open Session
variable {display speaker : FrontEnd} (stream : RandomBytes)

theorem proceeds_runTick (lastTime now : Number) :
    Proceeds display speaker (runTick stream lastTime now) :=
  .bind (proceeds_compute _) fun _ => .get_bind fun _ _ => proceeds_withMachine _

theorem proceeds_passBuzzer : Proceeds display speaker passBuzzer :=
  .get_bind fun _ _ => .bind (proceeds_perform rfl) fun _ =>
    proceeds_withSpeaker (Speaker.works_gate _)

/-- The screen after a report of whether anything was drawn. -/
def taken (s : Session) : Session :=
  { s with machine := { s.machine with screen := s.machine.screen.takeChanged.2 } }

theorem repaint_apply (s : Session) :
    repaint s =
      (do
        if s.machine.screen.changed then
          withHost (Host.perform (.draw s.machine.screen.pixels.toArray))
          withDisplay (Display.draw s.machine.screen.pixels.toArray)
        pure s.machine.screen.changed : SessionM Bool) (taken s) := by
  unfold repaint
  rw [bind_of_ok (x := get) rfl]
  exact bind_of_ok (x := set (taken s)) rfl

theorem proceeds_repaint : Proceeds display speaker repaint := by
  intro s hs
  unfold left
  rw [repaint_apply]
  have hpaint : Proceeds display speaker (do
      if s.machine.screen.changed then
        withHost (Host.perform (.draw s.machine.screen.pixels.toArray))
        withDisplay (Display.draw s.machine.screen.pixels.toArray)
      pure s.machine.screen.changed) :=
    .ite (.bind (proceeds_perform rfl) fun _ =>
      .bind (proceeds_withDisplay (Display.works_draw _)) fun _ => .pure _) (.pure _)
  exact hpaint (taken s) hs

theorem proceeds_report (frames : Nat) : Proceeds display speaker (report frames) :=
  .get_bind fun _ _ => .bind (proceeds_perform rfl) fun _ =>
    .bind (proceeds_withDisplay (Display.works_setTitle _)) fun _ =>
      proceeds_modify (fun _ => rfl) (fun _ => rfl) fun _ => rfl

theorem proceeds_work (p : Pace) : Proceeds display speaker (work stream p) := by
  refine .bind (proceeds_withHost Host.makes_readClock) fun now => ?_
  refine .bind (proceeds_runTick stream _ _) fun _ => .bind proceeds_passBuzzer fun _ => ?_
  refine .bind proceeds_repaint fun painted => .ite ?_ (.pure _)
  exact .bind (proceeds_compute _) fun _ => .bind (proceeds_report _) fun _ => .pure _

theorem proceeds_wait (tickTime : Number) : Proceeds display speaker (wait tickTime) := by
  refine .bind (proceeds_compute _) fun due => ?_
  refine .bind (proceeds_withHost Host.makes_readClock) fun now => ?_
  refine .bind (proceeds_compute _) fun delay => .ite (proceeds_perform rfl) (.pure _)

theorem proceeds_turn (p : Pace) : Proceeds display speaker (turn stream p) := by
  refine .bind (proceeds_withControls Controls.listens_poll) fun quit => .ite ?_ ?_
  · exact .bind (proceeds_modify (fun _ => rfl) (fun _ => rfl) fun _ => rfl) fun _ => .pure _
  · exact .bind (proceeds_work stream p) fun _ => .pure _

theorem proceeds_iterate (p : Pace) : Proceeds display speaker (iterate stream p) := by
  refine .bind (proceeds_turn stream p) fun next => ?_
  cases next with
  | none => exact .pure none
  | some p => exact .bind (proceeds_wait _) fun _ => .pure _

theorem proceeds_iterations (n : Nat) (p : Pace) :
    Proceeds display speaker (iterations stream n p) := by
  induction n generalizing p with
  | zero => exact .pure ()
  | succ n ih =>
      refine .bind (proceeds_iterate stream p) fun next => ?_
      cases next with
      | none => exact .pure ()
      | some p => exact ih p

theorem proceeds_run (maxTicks : Option Int) : Proceeds display speaker (run stream maxTicks) := by
  refine .bind ?_ fun p => .get_bind fun s _ => proceeds_iterations stream _ p
  refine .bind (proceeds_withHost Host.makes_readClock) fun now => ?_
  exact .bind (proceeds_compute _) fun _ => .pure _

end Loop
end Chip8
