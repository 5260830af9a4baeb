import Chip8.Startup
import Chip8.Proofs.Loop.Routine

/-!
# The stages of a launch

A launch makes the devices ready one after another, runs the loop, and gives back what
it made ready in the opposite order. The transcript tells how each stage began and ended,
so a whole launch can be read off it, whichever calls the host refuses and wherever the
clock gives out. Every stage between its beginning and its end makes calls only; the
rest is how the stages are nested. Read from the first to the last they are one line: up
to the first stage that fails, and from there back, each device by its own release.
-/
namespace Chip8
variable {α β : Type}

/-- What one looks for in a transcript: a device that became ready, the end of the loop,
and a device that is about to be given back. -/
def Event.landmark? : Event → Option Stage
  | .ended (.acquire d) none => some (.acquire d)
  | .ended .loop _ => some .loop
  | .begun (.release d) => some (.release d)
  | _ => none

def Event.failure? : Event → Option Failure
  | .ended _ failure => failure
  | _ => none

def lastFailure (log : List Event) : Option Failure := (log.filterMap Event.failure?).getLast?

def madeReady (devices : List DeviceKind) (log : List Event) : List DeviceKind :=
  devices.filter fun d => Event.ended (.acquire d) none ∈ log

/-- What is told of a stage that makes some calls. -/
def stageLog (stage : Stage) (made : List HostCall) (failure : Option Failure) : List Event :=
  .begun stage :: made.map .call ++ [.ended stage failure]

section Log
variable {stage : Stage} {made : List HostCall} {failure : Option Failure} {d : DeviceKind}
  {devices : List DeviceKind} {log log' : List Event}

theorem filterMap_landmark_calls (made : List HostCall) :
    (made.map Event.call).filterMap Event.landmark? = [] := by
  induction made with
  | nil => rfl
  | cons c rest ih => exact ih

theorem filterMap_failure_calls (made : List HostCall) :
    (made.map Event.call).filterMap Event.failure? = [] := by
  induction made with
  | nil => rfl
  | cons c rest ih => exact ih

theorem filterMap_landmark_stageLog :
    (stageLog stage made failure).filterMap Event.landmark? =
      [Event.begun stage, .ended stage failure].filterMap Event.landmark? := by
  have hsplit : stageLog stage made failure =
      [Event.begun stage] ++ made.map Event.call ++ [.ended stage failure] := rfl
  rw [hsplit, List.filterMap_append, List.filterMap_append, filterMap_landmark_calls,
    List.append_nil, ← List.filterMap_append]
  rfl

theorem ready_mem_stageLog :
    Event.ended (.acquire d) none ∈ stageLog stage made failure ↔
      stage = .acquire d ∧ failure = none := by
  simp [stageLog, eq_comm]

theorem loop_mem_stageLog : Event.begun .loop ∈ stageLog stage made failure ↔ stage = .loop := by
  simp [stageLog, eq_comm]

theorem lastFailure_append :
    lastFailure (log ++ log') = (lastFailure log').or (lastFailure log) := by
  simp [lastFailure]

theorem lastFailure_stageLog : lastFailure (stageLog stage made failure) = failure := by
  unfold lastFailure stageLog
  rw [List.filterMap_append, List.filterMap_cons_none rfl, filterMap_failure_calls]
  cases failure <;> rfl

/-- Of the devices, which become ready from the last to the first, those that did are given
back from the first to the last, after the loop has ended if it was begun. The failure is the
last one that a stage ended with. -/
structure Orderly (devices : List DeviceKind) (log : List Event) (failure : Option Failure) :
    Prop where
  landmarks : log.filterMap Event.landmark? =
    (madeReady devices log).reverse.map .acquire ++
      (if Event.begun .loop ∈ log then [.loop] else []) ++ (madeReady devices log).map .release
  failure : failure = lastFailure log
  others : ∀ d ∉ devices, Event.ended (.acquire d) none ∉ log

theorem madeReady_congr (h : ∀ d ∈ devices,
      (Event.ended (.acquire d) none ∈ log ↔ Event.ended (.acquire d) none ∈ log')) :
    madeReady devices log = madeReady devices log' :=
  List.filter_congr fun d hd => decide_eq_decide.mpr (h d hd)

theorem madeReady_eq_nil (h : ∀ d ∈ devices, Event.ended (.acquire d) none ∉ log) :
    madeReady devices log = [] :=
  List.filter_eq_nil_iff.mpr fun d hd => by simpa using h d hd

theorem madeReady_after_stage (hacquire : ∀ d, stage ≠ .acquire d) :
    madeReady devices (stageLog stage made failure ++ log) = madeReady devices log :=
  madeReady_congr fun d _ => by simp [ready_mem_stageLog, hacquire d]

theorem madeReady_of_failed {e : Failure} :
    madeReady devices (stageLog stage made (some e)) = [] :=
  madeReady_eq_nil fun d _ => by simp [ready_mem_stageLog]

theorem madeReady_bracket {made' : List HostCall} {failure' : Option Failure} (hd : d ∉ devices) :
    madeReady (devices ++ [d])
        (stageLog (.acquire d) made none ++ (log ++ stageLog (.release d) made' failure')) =
      madeReady devices log ++ [d] := by
  unfold madeReady
  rw [List.filter_append, List.filter_cons_of_pos (by simp [ready_mem_stageLog])]
  congr 1
  refine madeReady_congr fun d' hd' => ?_
  have hne : d ≠ d' := fun heq => hd (heq ▸ hd')
  simp [ready_mem_stageLog, hne]

theorem orderly_loop : Orderly [] (stageLog .loop made failure) failure where
  landmarks := by
    rw [filterMap_landmark_stageLog, if_pos (loop_mem_stageLog.mpr rfl)]
    rfl
  failure := lastFailure_stageLog.symm
  others d _ h := by simpa using ready_mem_stageLog.mp h

/-- A stage that makes no device ready and is not the loop leads up to what follows it. -/
theorem Orderly.after_stage (h : Orderly devices log failure)
    (hacquire : ∀ d, stage ≠ .acquire d) (hloop : stage ≠ .loop)
    (hrelease : ∀ d, stage ≠ .release d) :
    Orderly devices (stageLog stage made none ++ log) failure := by
  have hlandmark : (stageLog stage made none).filterMap Event.landmark? = [] := by
    rw [filterMap_landmark_stageLog]
    cases stage with
    | acquire d => exact absurd rfl (hacquire d)
    | resolution => rfl
    | loop => exact absurd rfl hloop
    | release d => exact absurd rfl (hrelease d)
  refine ⟨?_, ?_, ?_⟩
  · rw [List.filterMap_append, hlandmark, List.nil_append, h.landmarks,
      madeReady_after_stage hacquire]
    simp only [List.mem_append, loop_mem_stageLog, hloop, false_or]
  · rw [lastFailure_append, lastFailure_stageLog, Option.or_none]
    exact h.failure
  · intro d hd
    simp [ready_mem_stageLog, hacquire d, h.others d hd]

/-- A stage that fails, other than the loop, is the last there is. -/
theorem orderly_of_failed {e : Failure} (hloop : stage ≠ .loop)
    (hrelease : ∀ d, stage ≠ .release d) :
    Orderly devices (stageLog stage made (some e)) (some e) := by
  refine ⟨?_, lastFailure_stageLog.symm, fun d _ => by simp [ready_mem_stageLog]⟩
  rw [filterMap_landmark_stageLog, madeReady_of_failed, if_neg (mt loop_mem_stageLog.mp hloop)]
  cases stage with
  | acquire d => rfl
  | resolution => rfl
  | loop => exact absurd rfl hloop
  | release d => exact absurd rfl (hrelease d)

/-- A device that becomes ready is given back after all that was done with it. -/
theorem Orderly.bracket {made' : List HostCall} {failure' : Option Failure}
    (h : Orderly devices log failure) (hd : d ∉ devices) :
    Orderly (devices ++ [d])
      (stageLog (.acquire d) made none ++ (log ++ stageLog (.release d) made' failure'))
      (failure'.or failure) := by
  have hmade : madeReady (devices ++ [d])
      (stageLog (.acquire d) made none ++ (log ++ stageLog (.release d) made' failure')) =
        madeReady devices log ++ [d] := madeReady_bracket hd
  generalize hwhole :
    stageLog (.acquire d) made none ++ (log ++ stageLog (.release d) made' failure') = whole
    at hmade ⊢
  have hready : ∀ d', Event.ended (.acquire d') none ∈ whole ↔
      d = d' ∨ Event.ended (.acquire d') none ∈ log := by
    intro d'
    simp [← hwhole, ready_mem_stageLog]
  have hloop : Event.begun .loop ∈ whole ↔ Event.begun .loop ∈ log := by
    simp [← hwhole, loop_mem_stageLog]
  refine ⟨?_, ?_, ?_⟩
  · rw [hmade, ← hwhole, List.filterMap_append, List.filterMap_append, filterMap_landmark_stageLog,
      filterMap_landmark_stageLog, h.landmarks, hwhole]
    simp only [hloop, List.reverse_append, List.map_append, List.append_assoc]
    rfl
  · rw [← hwhole, lastFailure_append, lastFailure_append, lastFailure_stageLog,
      lastFailure_stageLog, h.failure, Option.or_none]
  · intro d' hd'
    rw [hready]
    rintro (rfl | hlog)
    · exact hd' (by simp)
    · exact h.others d' (fun hmem => hd' (by simp [hmem])) hlog

end Log

namespace Session

/-- An activity in the course of which calls are made, and nothing else is told. -/
abbrev Quiet (x : SessionM α) : Prop := Keeps (fun _ : Session => True) (fun _ => True) x

theorem Proceeds.quiet {x : SessionM α} (h : ∀ display speaker, Proceeds display speaker x) :
    Quiet x :=
  (Proceeds.keeps (J := fun _ _ => True) h).mono fun _ _ => trivial

theorem left_staged (stage : Stage) (x : SessionM Unit) (s : Session) :
    left (staged stage x) s =
      (left x (s.noted (.begun stage))).noted
        (.ended stage (failure? x (s.noted (.begun stage)))) := by
  unfold left failure? staged
  cases x (s.noted (.begun stage)) <;> rfl

theorem failure?_staged (stage : Stage) (x : SessionM Unit) (s : Session) :
    failure? (staged stage x) s = failure? x (s.noted (.begun stage)) := by
  unfold failure? staged
  cases x (s.noted (.begun stage)) <;> rfl

theorem left_thenAlways (body cleanup : SessionM Unit) (s : Session) :
    left (thenAlways body cleanup) s = left cleanup (left body s) := by
  cases hbody : body s with
  | ok _ s' => simp only [left, thenAlways, hbody]
  | error _ s' => cases hcleanup : cleanup s' <;> simp only [left, thenAlways, hbody, hcleanup]

/-- Of two failures the one of the clean-up counts. -/
theorem failure?_thenAlways (body cleanup : SessionM Unit) (s : Session) :
    failure? (thenAlways body cleanup) s =
      (failure? cleanup (left body s)).or (failure? body s) := by
  cases hbody : body s with
  | ok _ s' => simp only [left, failure?, thenAlways, hbody, Option.or_none]
  | error _ s' =>
      cases hcleanup : cleanup s' <;>
        simp only [left, failure?, thenAlways, hbody, hcleanup, Option.none_or, Option.some_or]

/-- The activity adds some events to the transcript, and the host refuses what it refused. -/
structure Tells (x : SessionM α) (s : Session) (log : List Event) : Prop where
  transcript : (left x s).host.transcript.toList = s.host.transcript.toList ++ log
  refuses : (left x s).host.refuses = s.host.refuses

theorem Keeps.tells {I : Session → Prop} {P : HostCall → Prop} {x : SessionM α}
    (h : Keeps I P x) {s : Session} (hs : I s) :
    ∃ made : List HostCall, (∀ c ∈ made, P c) ∧ Tells x s (made.map .call) := by
  obtain ⟨⟨hrefuses, -, made, hmade, htranscript⟩, -⟩ := h s hs
  refine ⟨made, hmade, ?_, hrefuses⟩
  have hlist := congrArg Array.toList htranscript
  simpa [Hosted.hostOf, Host.tell] using hlist

theorem tells_of_tell {α : Type} {x : SessionM α} {s : Session} {made : List HostCall}
    (h : (left x s).host = s.host.tell made) : Tells x s (made.map .call) :=
  ⟨by rw [h]; simp [Host.tell], by rw [h]; rfl⟩

theorem Tells.staged {stage : Stage} {x : SessionM Unit} {s : Session} {made : List HostCall}
    (h : Tells x (s.noted (.begun stage)) (made.map .call)) :
    Tells (staged stage x) s (stageLog stage made (failure? (Session.staged stage x) s)) := by
  obtain ⟨htranscript, hrefuses⟩ := h
  rw [failure?_staged]
  refine ⟨?_, ?_⟩
  · rw [left_staged]
    unfold noted at htranscript ⊢
    simp only [Array.toList_push, htranscript]
    simp [stageLog]
  · rw [left_staged]
    exact hrefuses

theorem Tells.thenAlways {body cleanup : SessionM Unit} {s : Session} {log log' : List Event}
    (hbody : Tells body s log) (hcleanup : Tells cleanup (left body s) log') :
    Tells (thenAlways body cleanup) s (log ++ log') where
  transcript := by
    rw [left_thenAlways, hcleanup.transcript, hbody.transcript, List.append_assoc]
  refuses := by
    rw [left_thenAlways, hcleanup.refuses, hbody.refuses]

theorem Tells.andThen {x : SessionM Unit} {y : SessionM α} {s : Session} {log log' : List Event}
    (hx : Tells x s log) (hok : failure? x s = none) (hy : Tells y (left x s) log') :
    Tells (do x; y) s (log ++ log') := by
  have hleft : left (do x; y) s = left y (left x s) := left_bind_of_ok (eq_ok_of_failure? hok)
  exact ⟨by rw [hleft, hy.transcript, hx.transcript, List.append_assoc],
    by rw [hleft, hy.refuses, hx.refuses]⟩

theorem Tells.failed {x : SessionM Unit} {y : SessionM α} {s : Session} {log : List Event}
    {e : Failure} (hx : Tells x s log) (herror : failure? x s = some e) :
    Tells (do x; y) s log := by
  have hleft : left (do x; y) s = left x s := left_bind_of_error (eq_error_of_failure? herror)
  exact ⟨by rw [hleft, hx.transcript], by rw [hleft, hx.refuses]⟩

theorem failure?_andThen {x y : SessionM Unit} {s : Session} :
    failure? (do x; y) s = (failure? x s).or (failure? y (left x s)) := by
  cases hx : failure? x s with
  | none => simp only [failure?, bind_of_ok (eq_ok_of_failure? hx), Option.none_or]
  | some e => simp only [failure?, bind_of_error (eq_error_of_failure? hx), Option.some_or]

/-- The release of a device, which is done with the one that is held. -/
def release : DeviceKind → SessionM Unit
  | .display => withDisplay Display.release
  | .controls => withControls Controls.release
  | .speaker => withSpeaker Speaker.release

theorem quiet_release (d : DeviceKind) : Quiet (release d) := by
  cases d with
  | display => exact keeps_releaseDisplay (J := fun _ _ => True) fun _ _ _ _ _ _ => trivial
  | controls => exact Proceeds.quiet fun _ _ => proceeds_withControls Controls.listens_release
  | speaker => exact keeps_releaseSpeaker (J := fun _ _ => True) fun _ _ _ _ _ _ => trivial

/-- Some devices are given back, one after another, whether or not the one before failed.
Each has a stage of its own, and between the marks of that stage its release is done, once. -/
inductive GivesBack (s : Session) : List DeviceKind → List Event → Session → Prop
  | nothing : GivesBack s [] [] s
  | next {devices : List DeviceKind} {log : List Event} {held : Session} {d : DeviceKind}
      {made : List HostCall} {failure : Option Failure} (before : GivesBack s devices log held)
      (tells : Tells (release d) (held.noted (.begun (.release d))) (made.map .call))
      (fails : failure? (release d) (held.noted (.begun (.release d))) = failure) :
      GivesBack s (devices ++ [d]) (log ++ stageLog (.release d) made failure)
        ((left (release d) (held.noted (.begun (.release d)))).noted (.ended (.release d) failure))

theorem GivesBack.transcript {s s' : Session} {devices : List DeviceKind} {log : List Event}
    (h : GivesBack s devices log s') :
    s'.host.transcript.toList = s.host.transcript.toList ++ log := by
  induction h with
  | nothing => exact (List.append_nil _).symm
  | next _ tells _ ih =>
      have htold := tells.transcript
      unfold noted at htold ⊢
      simp only [Array.toList_push, htold, ih]
      simp [stageLog]

/-- The activity goes the way `forward` as far as that goes, and then gives back what became
ready. What it tells of all that is in order. -/
structure Course (devices : List DeviceKind) (forward x : SessionM Unit) (s : Session)
    (before after : List Event) : Prop where
  goes : Tells forward s before
  returns : GivesBack (left forward s) (madeReady devices (before ++ after)) after (left x s)
  orderly : Orderly devices (before ++ after) (failure? x s)

/-- Whatever state it starts from, the activity takes such a course. -/
def RunsOrderly (devices : List DeviceKind) (forward x : SessionM Unit) : Prop :=
  ∀ s, ∃ before after, Course devices forward x s before after

variable {devices : List DeviceKind} {stage : Stage} {forward x body : SessionM Unit}

theorem Quiet.tells (hx : Quiet x) (s : Session) :
    ∃ made : List HostCall, Tells x s (made.map .call) := by
  obtain ⟨made, -, hmade⟩ := Keeps.tells hx (s := s) trivial
  exact ⟨made, hmade⟩

theorem Quiet.tells_staged (hx : Quiet x) (stage : Stage) (s : Session) :
    ∃ made, Tells (staged stage x) s (stageLog stage made (failure? (staged stage x) s)) := by
  obtain ⟨made, hmade⟩ := hx.tells (s.noted (.begun stage))
  exact ⟨made, hmade.staged⟩

/-- A stage that fails is where both ways end. -/
theorem course_of_failed {s : Session} {made : List HostCall} {e : Failure}
    (hstage : Tells (staged stage x) s (stageLog stage made (some e)))
    (hfailure : failure? (staged stage x) s = some e) (hloop : stage ≠ .loop)
    (hrelease : ∀ d, stage ≠ .release d) :
    Course devices (do staged stage x; forward) (do staged stage x; body) s
      (stageLog stage made (some e)) [] := by
  have hdone := eq_error_of_failure? hfailure
  refine ⟨hstage.failed hfailure, ?_, ?_⟩
  · rw [left_bind_of_error hdone, left_bind_of_error hdone, List.append_nil, madeReady_of_failed]
    exact .nothing
  · rw [List.append_nil, failure?_andThen, hfailure]
    exact orderly_of_failed hloop hrelease

theorem RunsOrderly.after_stage (hx : Quiet x) (hacquire : ∀ d, stage ≠ .acquire d)
    (hloop : stage ≠ .loop) (hrelease : ∀ d, stage ≠ .release d)
    (hbody : RunsOrderly devices forward body) :
    RunsOrderly devices (do staged stage x; forward) (do staged stage x; body) := by
  intro s
  obtain ⟨made, hstage⟩ := hx.tells_staged stage s
  cases hfailure : failure? (staged stage x) s with
  | some e =>
      rw [hfailure] at hstage
      exact ⟨_, [], course_of_failed hstage hfailure hloop hrelease⟩
  | none =>
      rw [hfailure] at hstage
      have hdone := eq_ok_of_failure? hfailure
      obtain ⟨before, after, hcourse⟩ := hbody (left (staged stage x) s)
      refine ⟨_, after, hstage.andThen hfailure hcourse.goes, ?_, ?_⟩
      · rw [left_bind_of_ok hdone, left_bind_of_ok hdone, List.append_assoc,
          madeReady_after_stage hacquire]
        exact hcourse.returns
      · rw [failure?_andThen, hfailure, List.append_assoc]
        exact hcourse.orderly.after_stage hacquire hloop hrelease

theorem RunsOrderly.bracket {d : DeviceKind} (hx : Quiet x)
    (hbody : RunsOrderly devices forward body) (hd : d ∉ devices) :
    RunsOrderly (devices ++ [d]) (do staged (.acquire d) x; forward)
      (do staged (.acquire d) x; thenAlways body (staged (.release d) (release d))) := by
  intro s
  obtain ⟨made, hacquire⟩ := hx.tells_staged (.acquire d) s
  cases hfailure : failure? (staged (.acquire d) x) s with
  | some e =>
      rw [hfailure] at hacquire
      exact ⟨_, [], course_of_failed hacquire hfailure nofun nofun⟩
  | none =>
      rw [hfailure] at hacquire
      have hdone := eq_ok_of_failure? hfailure
      obtain ⟨before, after, hcourse⟩ := hbody (left (staged (.acquire d) x) s)
      let held := left body (left (staged (.acquire d) x) s)
      obtain ⟨made', hmade'⟩ := (quiet_release d).tells (held.noted (.begun (.release d)))
      let failure' := failure? (release d) (held.noted (.begun (.release d)))
      refine ⟨_, after ++ stageLog (.release d) made' failure',
        hacquire.andThen hfailure hcourse.goes, ?_, ?_⟩
      · rw [left_bind_of_ok hdone, left_bind_of_ok hdone, left_thenAlways,
          left_staged (.release d), List.append_assoc, ← List.append_assoc before,
          madeReady_bracket hd]
        exact hcourse.returns.next hmade' rfl
      · rw [failure?_andThen, hfailure, Option.none_or, failure?_thenAlways, failure?_staged,
          List.append_assoc, ← List.append_assoc before]
        exact hcourse.orderly.bracket hd

end Session

namespace Startup
open Session
variable (stream : RandomBytes) (p : Prepared)

/-- A device of the front end is made ready, and is held from then on. -/
def makeReady : DeviceKind → SessionM Unit
  | .display => do
      let display ← withHost (Display.acquire p.frontEnd p.scale)
      modify fun s => { s with display }
  | .controls =>
      match needLayout p.layout with
      | .error e => throw e
      | .ok text =>
          match Controls.acquire p.frontEnd false text with
          | .error e => throw (.layout e)
          | .ok controls => modify fun s => { s with controls }
  | .speaker => do
      let speaker ← withHost (Speaker.acquire p.speaker)
      modify fun s => { s with speaker }

theorem quiet_acquire {δ : Type} {wanted : List HostCall} {result : Except Failure δ}
    {ready : HostM δ} (hready : Host.Asks wanted result ready) (put : δ → Session → Session)
    (hhost : ∀ device s, (put device s).host = s.host) :
    Quiet (do let device ← withHost ready; modify (put device)) :=
  keeps_acquire hready put hhost (fun _ _ hs => hs) (fun _ _ _ hs => hs) fun _ _ => trivial

theorem proceeds_makeReady_controls (display speaker : FrontEnd) :
    Proceeds display speaker (makeReady p .controls) := by
  unfold makeReady
  cases needLayout p.layout with
  | error e => exact .throw e
  | ok text =>
      dsimp only
      cases Controls.acquire p.frontEnd false text with
      | error e => exact .throw _
      | ok controls => exact proceeds_modify (fun _ => rfl) (fun _ => rfl) fun _ => rfl

theorem quiet_makeReady (d : DeviceKind) : Quiet (makeReady p d) := by
  cases d with
  | display =>
      exact quiet_acquire (Display.asks_acquire p.frontEnd p.scale)
        (fun display s => { s with display }) fun _ _ => rfl
  | controls => exact Proceeds.quiet (proceeds_makeReady_controls p)
  | speaker =>
      exact quiet_acquire (Speaker.asks_acquire p.speaker) (fun speaker s => { s with speaker })
        fun _ _ => rfl

theorem quiet_setResolution :
    Quiet (withDisplay (Display.setResolution screenWidth screenHeight)) :=
  Proceeds.quiet fun _ _ => proceeds_withDisplay (Display.works_setResolution _ _)

theorem proceeds_announced (display speaker : FrontEnd) :
    Proceeds display speaker (do
      withHost (Host.note (.call (.run p.frontEnd p.frontEnd p.speaker)))
      Loop.run stream none) :=
  .bind (proceeds_withHost (Host.makes_attempt rfl)) fun _ => Loop.proceeds_run stream none

theorem runsOrderly_runLoop : RunsOrderly [] (runLoop stream p) (runLoop stream p) := by
  intro s
  obtain ⟨made, hloop⟩ := (Proceeds.quiet (proceeds_announced stream p)).tells_staged .loop s
  refine ⟨_, [], ⟨hloop, .nothing, ?_⟩⟩
  rw [List.append_nil]
  exact orderly_loop

theorem runsOrderly_withSpeakerReady :
    RunsOrderly [.speaker] (do acquireSpeaker p.speaker; runLoop stream p)
      (withSpeakerReady stream p) :=
  .bracket (quiet_makeReady p .speaker) (runsOrderly_runLoop stream p) List.not_mem_nil

theorem runsOrderly_withControlsReady :
    RunsOrderly [.speaker, .controls]
      (do acquireControls p.frontEnd p.layout; acquireSpeaker p.speaker; runLoop stream p)
      (withControlsReady stream p) :=
  .bracket (quiet_makeReady p .controls) (runsOrderly_withSpeakerReady stream p) (by simp)

/-- A launch up to the first stage that fails, or else to the end of the loop. Nothing has been
given back then. -/
def advance : SessionM Unit := do
  staged (.acquire .display) (makeReady p .display)
  staged .resolution (withDisplay (Display.setResolution screenWidth screenHeight))
  staged (.acquire .controls) (makeReady p .controls)
  staged (.acquire .speaker) (makeReady p .speaker)
  staged .loop do
    withHost (Host.note (.call (.run p.frontEnd p.frontEnd p.speaker)))
    Loop.run stream none

theorem runsOrderly_launch :
    RunsOrderly [.speaker, .controls, .display] (advance stream p) (launch stream p) := by
  have hbody : RunsOrderly [.speaker, .controls]
      (do
        matchScreen
        acquireControls p.frontEnd p.layout
        acquireSpeaker p.speaker
        runLoop stream p)
      (do matchScreen; withControlsReady stream p) :=
    .after_stage quiet_setResolution nofun nofun nofun (runsOrderly_withControlsReady stream p)
  exact .bracket (quiet_makeReady p .display) hbody (by simp)

/-- What a run adds to the transcript of its host. -/
def Ending.log (ending : Ending) (host : Host) : List Event :=
  match ending.session with
  | none => []
  | some s => s.host.transcript.toList.drop host.transcript.size

theorem Ending.log_eq {ending : Ending} {s : Session} {host : Host} {log : List Event}
    (hs : ending.session = some s)
    (hlog : s.host.transcript.toList = host.transcript.toList ++ log) : ending.log host = log := by
  simp only [Ending.log, hs, hlog]
  exact List.drop_left

/-- A run either fails before it asks for a device, or is a launch of what was prepared. -/
theorem run_cases (installed : Installed) (files : ProgramFile.Files) (host : Host) (o : Options) :
    (∃ e remarks, prepare installed files o #[] = .error e remarks ∧
      run stream installed files host o = ⟨some e, remarks, none⟩) ∨
    (∃ p remarks s, prepare installed files o #[] = .ok p remarks ∧
      s = left (launch stream p) (.begin host p.machine remarks) ∧
      run stream installed files host o =
        ⟨failure? (launch stream p) (.begin host p.machine remarks), s.remarks, some s⟩) := by
  unfold run
  cases hprepare : prepare installed files o #[] with
  | error e remarks => exact .inl ⟨e, remarks, rfl, rfl⟩
  | ok p remarks =>
      refine .inr ⟨p, remarks, _, rfl, rfl, ?_⟩
      dsimp only
      cases hlaunch : launch stream p (.begin host p.machine remarks) <;>
        simp only [left, failure?, hlaunch]

/-- Of the devices that became ready, in the order display, controls, speaker, each is given
back once and no other is, in the opposite order and after the loop has ended if it was begun.
A device is given back by its own release, done with the device as it was held by then, and
these releases are all that follows once the launch goes no further. A run that reached its
devices succeeds if no stage failed, and otherwise ends with the last failure of a stage. -/
theorem run_gives_back_what_became_ready (installed : Installed) (files : ProgramFile.Files)
    (host : Host) (o : Options) :
    let ending := run stream installed files host o
    let log := ending.log host
    let ready := madeReady [.speaker, .controls, .display] log
    log.filterMap Event.landmark? =
        ready.reverse.map .acquire ++ (if Event.begun .loop ∈ log then [.loop] else []) ++
          ready.map .release ∧
      ((∃ p remarks before after s, prepare installed files o #[] = .ok p remarks ∧
          Tells (advance stream p) (.begin host p.machine remarks) before ∧
          GivesBack (left (advance stream p) (.begin host p.machine remarks)) ready after s ∧
          log = before ++ after ∧ ending.session = some s) ∧ ending.failure = lastFailure log ∨
        ending.session.isNone ∧ log = [] ∧ ending.failure.isSome) := by
  intro ending log ready
  rcases run_cases stream installed files host o with
    ⟨e, remarks, -, hrun⟩ | ⟨p, remarks, s, hprepare, hs, hrun⟩
  · have hending : ending = ⟨some e, remarks, none⟩ := hrun
    have hlog : log = [] := by simp only [log, hending, Ending.log]
    refine ⟨?_, .inr ?_⟩
    · simp only [ready, hlog]
      rfl
    · simp only [hending, hlog, Option.isNone_none, Option.isSome_some, and_self]
  · have hending : ending = ⟨_, s.remarks, some s⟩ := hrun
    obtain ⟨before, after, hcourse⟩ :=
      runsOrderly_launch stream p (.begin host p.machine remarks)
    have hlog : log = before ++ after := by
      refine Ending.log_eq (congrArg Ending.session hending) ?_
      rw [hs, hcourse.returns.transcript, hcourse.goes.transcript, List.append_assoc]
      rfl
    refine ⟨?_, .inl ⟨⟨p, remarks, before, after, s, hprepare, hcourse.goes, ?_, hlog, ?_⟩, ?_⟩⟩
    · simp only [ready, hlog]
      exact hcourse.orderly.landmarks
    · simp only [ready, hlog, hs]
      exact hcourse.returns
    · rw [hending]
    · rw [hlog, hending]
      exact hcourse.orderly.failure

end Startup
end Chip8
