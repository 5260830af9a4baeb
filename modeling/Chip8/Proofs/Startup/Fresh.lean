import Chip8.Proofs.Startup.Preparation
import Chip8.Proofs.Startup.Stages

/-!
# What the loop begins with

A launch that gets as far as the loop has made its devices ready first, and none of that
touches the machine. So the loop begins with the machine of the preparation: a new one with
the program of the named file in memory. A start-up that is rejected is rejected by the
preparation, before anything is asked of the host.
-/
namespace Chip8

namespace Machine

structure Fresh (m : Machine) (program : Array UInt8) (pacer : Pacer) : Prop where
  fontBytes : m.memory.Stores fontAddress font
  programBytes : m.memory.Stores programAddress program
  otherBytes : ∀ k (hk : k < memorySize), fontAddress + font.size ≤ k →
    k < programAddress ∨ programAddress + program.size ≤ k → m.memory.bytes[k] = 0
  pc : m.pc = programAddress
  registers : ∀ x, m.reg x = 0
  index : m.i = 0
  timers : m.delay = 0 ∧ m.sound = 0
  stack : m.stack.items = #[]
  pixels : ∀ k (hk : k < screenWidth * screenHeight), m.screen.pixels[k] = false
  changed : m.screen.changed = true
  pacer : m.pacer = pacer

theorem fresh_of_load {pacer : Pacer} {traced : Bool} {program : Array UInt8}
    (h : program.size ≤ maxProgramSize) :
    ((new pacer traced).load program).machine.Fresh program pacer := by
  obtain ⟨hfont, hprogram, hother, hpc⟩ := takes_of_fits (m := new pacer traced) h
  have hrest := load_touches_only (new pacer traced) program
  refine ⟨hfont, hprogram, fun k hk hbehind houtside => ?_, hpc, ?_, ?_, ?_, ?_, ?_, ?_, ?_⟩
  · rw [hother k hk hbehind houtside]
    exact Vector.getElem_replicate hk
  all_goals rw [hrest]
  · intro x
    exact Vector.getElem_replicate x.isLt
  · rfl
  · exact ⟨rfl, rfl⟩
  · rfl
  · intro k hk
    exact Vector.getElem_replicate hk
  · rfl
  · rfl

end Machine

theorem FailsOnly.staged {Q : Failure → Prop} {x : SessionM Unit} (hx : FailsOnly Q x)
    (stage : Stage) : FailsOnly Q (Session.staged stage x) :=
  hx.seen (fun s => s.noted (.begun stage)) (Session.failure?_staged stage x)

theorem FailsOnly.thenAlways {Q : Failure → Prop} {body cleanup : SessionM Unit}
    (hbody : FailsOnly Q body) (hcleanup : FailsOnly Q cleanup) :
    FailsOnly Q (Session.thenAlways body cleanup) := by
  intro s e he
  rw [Session.failure?_thenAlways] at he
  rcases Option.or_eq_some_iff.mp he with hlater | ⟨-, hearlier⟩
  · exact hcleanup _ e hlater
  · exact hbody s e hearlier

namespace Session
variable {ready body cleanup x : SessionM Unit} {back : Session → Session} {stage : Stage}

/-- The loop is begun only if `ready` succeeds. Then `body` is what follows, and after
it nothing is left but to go `back`. -/
def LeadsTo (ready body : SessionM Unit) (back : Session → Session) (x : SessionM Unit) : Prop :=
  ∀ s, (∃ s', ready s = .ok () s' ∧ left x s = back (left body s')) ∨
    ∃ log, Tells x s log ∧ Event.begun .loop ∉ log

theorem leadsTo_self (body : SessionM Unit) : LeadsTo (pure ()) body id body :=
  fun s => .inl ⟨s, rfl, rfl⟩

theorem LeadsTo.after_stage {y : SessionM Unit} (h : LeadsTo ready body back y) (hx : Quiet x)
    (hstage : stage ≠ .loop) :
    LeadsTo (do staged stage x; ready) body back (do staged stage x; y) := by
  intro s
  obtain ⟨made, htells⟩ := hx.tells_staged stage s
  have hsilent : ∀ failure, Event.begun .loop ∉ stageLog stage made failure := fun _ =>
    mt loop_mem_stageLog.mp hstage
  cases hfailure : failure? (staged stage x) s with
  | some e => exact .inr ⟨_, htells.failed hfailure, hsilent _⟩
  | none =>
      have hdone := eq_ok_of_failure? hfailure
      rcases h (left (staged stage x) s) with ⟨s', hready, hleft⟩ | ⟨log, htells', hlog⟩
      · refine .inl ⟨s', ?_, ?_⟩
        · rw [bind_of_ok hdone, hready]
        · rw [left_bind_of_ok hdone, hleft]
      · refine .inr ⟨_, htells.andThen hfailure htells', ?_⟩
        exact fun hmem => (List.mem_append.mp hmem).elim (hsilent _) hlog

theorem LeadsTo.bracket {y : SessionM Unit} {d : DeviceKind} (h : LeadsTo ready body back y)
    (hx : Quiet x) :
    LeadsTo (do staged (.acquire d) x; ready) body (left (staged (.release d) (release d)) ∘ back)
      (do staged (.acquire d) x; thenAlways y (staged (.release d) (release d))) := by
  refine .after_stage ?_ hx nofun
  intro s
  rcases h s with ⟨s', hready, hleft⟩ | ⟨log, htells, hlog⟩
  · refine .inl ⟨s', hready, ?_⟩
    rw [left_thenAlways, hleft, Function.comp_apply]
  · obtain ⟨made, htells'⟩ := (quiet_release d).tells_staged (.release d) (left y s)
    refine .inr ⟨_, htells.thenAlways htells', ?_⟩
    exact fun hmem => (List.mem_append.mp hmem).elim hlog (mt loop_mem_stageLog.mp nofun)

def KeepsMachine (x : SessionM Unit) : Prop := ∀ s, (left x s).machine = s.machine

theorem KeepsMachine.staged (h : KeepsMachine x) (stage : Stage) :
    KeepsMachine (staged stage x) := by
  intro s
  rw [left_staged]
  exact h (s.noted (.begun stage))

theorem KeepsMachine.andThen {y : SessionM Unit} (hx : KeepsMachine x) (hy : KeepsMachine y) :
    KeepsMachine (do x; y) := by
  intro s
  cases hfailure : failure? x s with
  | some e =>
      rw [left_bind_of_error (eq_error_of_failure? hfailure)]
      exact hx s
  | none =>
      rw [left_bind_of_ok (eq_ok_of_failure? hfailure)]
      exact (hy _).trans (hx s)

theorem keepsMachine_acquire {δ : Type} {wanted : List HostCall} {result : Except Failure δ}
    {ready : HostM δ} (hready : Host.Asks wanted result ready) (put : δ → Session → Session)
    (hput : ∀ device s, (put device s).machine = s.machine) :
    KeepsMachine (do let device ← withHost ready; modify (put device)) := by
  intro s
  rcases acquire_cases hready put s with ⟨device, -, -, hdone⟩ | ⟨e, -, hdone⟩
  · rw [left_of_ok hdone, hput]
  · rw [left_of_error hdone]

end Session

namespace Startup
open Session
variable (stream : RandomBytes) (p : Prepared)

/-- What a launch does before the loop. -/
def getReady : SessionM Unit := do
  acquireDisplay p.frontEnd p.scale
  matchScreen
  acquireControls p.frontEnd p.layout
  acquireSpeaker p.speaker

/-- What a launch does after the loop, whether or not it failed. -/
def giveBack : Session → Session :=
  left releaseDisplay ∘ left releaseControls ∘ left releaseSpeaker

theorem keepsMachine_getReady : KeepsMachine (getReady p) := by
  refine .andThen (.staged ?_ _) (.andThen (.staged ?_ _) (.andThen (.staged ?_ _) (.staged ?_ _)))
  · exact keepsMachine_acquire (Display.asks_acquire p.frontEnd p.scale)
      (fun display s => { s with display }) fun _ _ => rfl
  · intro s
    rw [left_withDisplay]
  · intro s
    cases needLayout p.layout with
    | error e => rfl
    | ok text =>
        dsimp only
        cases Controls.acquire p.frontEnd false text <;> rfl
  · exact keepsMachine_acquire (Speaker.asks_acquire p.speaker)
      (fun speaker s => { s with speaker }) fun _ _ => rfl

theorem leadsTo_launch : LeadsTo (getReady p) (runLoop stream p) giveBack (launch stream p) := by
  have hspeaker : LeadsTo (do acquireSpeaker p.speaker; pure ()) (runLoop stream p)
      (left releaseSpeaker) (withSpeakerReady stream p) :=
    (leadsTo_self _).bracket (quiet_makeReady p .speaker)
  rw [bind_pure_unit] at hspeaker
  have hcontrols : LeadsTo (do acquireControls p.frontEnd p.layout; acquireSpeaker p.speaker)
      (runLoop stream p) (left releaseControls ∘ left releaseSpeaker)
      (withControlsReady stream p) :=
    hspeaker.bracket (quiet_makeReady p .controls)
  have hscreen : LeadsTo
      (do matchScreen; acquireControls p.frontEnd p.layout; acquireSpeaker p.speaker)
      (runLoop stream p) (left releaseControls ∘ left releaseSpeaker)
      (do matchScreen; withControlsReady stream p) :=
    hcontrols.after_stage quiet_setResolution nofun
  exact hscreen.bracket (quiet_makeReady p .display)

theorem isRejection_of_needLayout {layout : Option OptionValue} {e : Failure}
    (h : needLayout layout = .error e) : e.isRejection = false := by
  rcases layout with _ | value
  · cases h
    rfl
  · cases value with
    | text s => cases h
    | _ =>
        cases h
        rfl

theorem unrejecting_acquireControls (kind : FrontEnd) (layout : Option OptionValue) :
    Unrejecting (acquireControls kind layout) := by
  refine .staged ?_ _
  cases hlayout : needLayout layout with
  | error e => exact .throw (isRejection_of_needLayout hlayout)
  | ok text =>
      dsimp only
      cases Controls.acquire kind false text with
      | error e => exact .throw rfl
      | ok controls => exact .modify _

/-- Nothing that is asked of a device rejects a start-up. -/
theorem unrejecting_launch : Unrejecting (launch stream p) := by
  have hloop : Unrejecting (runLoop stream p) :=
    .staged (.bind (unrejecting_withHost (.modify _)) fun _ => Loop.unrejecting_run stream none) _
  have hspeaker : Unrejecting (withSpeakerReady stream p) := by
    refine .bind (.staged (.bind ?_ fun _ => .modify _) _) fun _ => .thenAlways hloop (.staged ?_ _)
    · exact unrejecting_withHost (Speaker.unrejecting_acquire p.speaker)
    · exact unrejecting_withSpeaker Speaker.unrejecting_release
  have hcontrols : Unrejecting (withControlsReady stream p) := by
    refine .bind (unrejecting_acquireControls _ _) fun _ => .thenAlways hspeaker (.staged ?_ _)
    exact unrejecting_withControls (unrejecting_adjust _)
  refine .bind (.staged (.bind ?_ fun _ => .modify _) _) fun _ => .thenAlways ?_ (.staged ?_ _)
  · exact unrejecting_withHost (Display.unrejecting_acquire p.frontEnd p.scale)
  · refine .bind (.staged ?_ _) fun _ => hcontrols
    exact unrejecting_withDisplay (Display.unrejecting_setResolution _ _)
  · exact unrejecting_withDisplay Display.unrejecting_release

theorem chooseClockSpeed_eq_ok_iff {wish : OptionValue} {speed : Number} :
    chooseClockSpeed wish = .ok speed ↔
      wish = .null ∧ speed = .int 700 ∨ ∃ n, wish = .numeral n ∧ speed = n.toNumber := by
  unfold chooseClockSpeed
  constructor
  · intro h
    split at h
    · cases h
      exact .inl ⟨rfl, rfl⟩
    · cases h
      exact .inr ⟨_, rfl, rfl⟩
    · cases h
  · rintro (⟨rfl, rfl⟩ | ⟨n, rfl, rfl⟩) <;> rfl

/-- A start-up that is rejected has asked nothing of the host. One that comes to the loop has made
its devices ready, and begins the loop with a new machine that holds the program of the named
file and runs at the speed that was asked for. -/
theorem run_rejects_or_begins_fresh (installed : Installed) (files : ProgramFile.Files)
    (host : Host) (o : Options) :
    let ending := run stream installed files host o
    (∀ reason, ending.failure = some (.rejected reason) →
      ending.session = none ∧ ending.log host = []) ∧
    (Event.begun .loop ∈ ending.log host →
      ∃ p remarks s, prepare installed files o #[] = .ok p remarks ∧
        getReady p (.begin host p.machine remarks) = .ok () s ∧
        ending.session = some (giveBack (left (runLoop stream p) s)) ∧
        ∃ name program wish speed, o.programName = some (.text name) ∧
          files name = .ok program ∧ o.clockSpeed = some wish ∧
          (wish = .null ∧ speed = .int 700 ∨ ∃ n, wish = .numeral n ∧ speed = n.toNumber) ∧
          s.machine.Fresh program ⟨speed, .zero⟩) := by
  intro ending
  rcases run_cases stream installed files host o with
    ⟨e, remarks, -, hrun⟩ | ⟨p, remarks, s, hprepare, hs, hrun⟩
  · have hending : ending = ⟨some e, remarks, none⟩ := hrun
    rw [hending]
    exact ⟨fun _ _ => ⟨rfl, rfl⟩, nofun⟩
  · have hending : ending = ⟨_, s.remarks, some s⟩ := hrun
    refine ⟨fun reason hreason => ?_, fun hloop => ?_⟩
    · rw [hending] at hreason
      have hnot := unrejecting_launch stream p _ _ hreason
      cases hnot
    · obtain ⟨findings, hfindings⟩ := exists_findings hprepare
      rcases leadsTo_launch stream p (.begin host p.machine remarks) with
        ⟨s', hready, hleft⟩ | ⟨log, htells, hlog⟩
      · refine ⟨p, remarks, s', hprepare, hready, ?_, findings.name, findings.program,
          findings.clockSpeed, findings.speed, hfindings.name, ?_, hfindings.clockSpeed,
          chooseClockSpeed_eq_ok_iff.mp hfindings.speed, ?_⟩
        · rw [hending, hs, hleft]
        · exact (ProgramFile.read_eq_ok_iff.mp hfindings.program).2.1
        · have hkept := keepsMachine_getReady p (.begin host p.machine remarks)
          rw [left_of_ok hready] at hkept
          rw [hkept]
          show p.machine.Fresh _ _
          rw [hfindings.machine]
          exact Machine.fresh_of_load (ProgramFile.read_eq_ok_iff.mp hfindings.program).2.2
      · have hsame : ending.log host = log :=
          Ending.log_eq (congrArg Ending.session hending) (hs ▸ htells.transcript)
        exact absurd (hsame ▸ hloop) hlog

def behind (frontEnd : String) : Options where
  programName := some (.text "test.ch8")
  clockSpeed := some .null
  frontEnd := some (.text frontEnd)
  scale := some .null
  muted := some .null
  layout := some (.text "0,1,2,3,4,5,6,7,8,9,10,11,12,13,14,15")
  traced := some (.flag false)

/-- Without a front end of that name the start-up is rejected; without any it comes to the loop. -/
theorem endless_jump_begins_fresh :
    let files : ProgramFile.Files := fun _ => .ok #[0x12, 0x00]
    let rejected := run (fun _ => 0) ⟨true, true⟩ files .quiet (behind "sdl")
    let begun := run (fun _ => 0) ⟨true, true⟩ files .quiet (behind "null")
    rejected.failure = some (.rejected (.unknownFrontEnd "sdl")) ∧
      rejected.log .quiet = [] ∧
      Event.begun .loop ∈ begun.log .quiet ∧
      ∃ p s, begun.session = some (giveBack (left (runLoop (fun _ => 0) p) s)) ∧
        s.machine.Fresh #[0x12, 0x00] ⟨.int 700, .zero⟩ := by
  intro files rejected begun
  have hrejected : rejected.failure = some (.rejected (.unknownFrontEnd "sdl")) := by
    decide +kernel
  have hbegun : Event.begun .loop ∈ begun.log .quiet := by decide +kernel
  obtain ⟨hrejects, -⟩ := run_rejects_or_begins_fresh (fun _ => 0) ⟨true, true⟩ files .quiet
    (behind "sdl")
  obtain ⟨-, hbegins⟩ := run_rejects_or_begins_fresh (fun _ => 0) ⟨true, true⟩ files .quiet
    (behind "null")
  obtain ⟨p, remarks, s, -, -, hsession, name, program, wish, speed, hname, hfile, hwish, hspeed,
    hfresh⟩ := hbegins hbegun
  refine ⟨hrejected, (hrejects _ hrejected).2, hbegun, p, s, hsession, ?_⟩
  cases hwish
  cases hfile
  rcases hspeed with ⟨-, rfl⟩ | ⟨n, hn, -⟩
  · exact hfresh
  · cases hn

end Startup
end Chip8
