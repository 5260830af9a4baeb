import Chip8.Proofs.Startup.Facility
import Chip8.Proofs.Startup.Preparation

/-!
# What is opened is closed if nothing in between is refused

Every stage of a launch either leaves a facility alone or is the one that opens and closes
it. Put together, they tell of a whole run when a facility that was opened is closed.
-/
namespace Chip8
namespace Facility
variable {f : Facility} {scale : OptionValue}

/-! ## In the course of a session -/

section Session
open Session
variable {K : Session → Prop} {x y body : SessionM Unit} {stage : Stage}

/-- What is looked at does not depend on what is noted about the stages. -/
abbrev Steady (K : Session → Prop) : Prop := ∀ e s, K s → K (s.noted e)

/-- From states with a property the activity neither opens nor closes the facility, and
leaves the property in place. -/
def Shuns (f : Facility) (K : Session → Prop) (x : SessionM Unit) : Prop :=
  ∀ s, K s → K (left x s) ∧ ∃ log, Tells x s log ∧ (callsOf log).filter f.touches = []

/-- The activity settles the facility if the host lets it be opened. -/
def Settles (f : Facility) (scale : OptionValue) (x : SessionM Unit) : Prop :=
  ∀ s : Session, s.host.refuses f.opening = false →
    ∃ log, Tells x s log ∧ f.Settled s.host.refuses scale (callsOf log)

theorem Shuns.staged (hsteady : Steady K)
    (hx : Keeps K (fun c => f.touches c = false) x) (stage : Stage) :
    Shuns f K (staged stage x) := by
  intro s hs
  have hbegun := hsteady (.begun stage) s hs
  obtain ⟨made, hmade, htells⟩ := Keeps.tells hx hbegun
  refine ⟨?_, _, htells.staged, ?_⟩
  · rw [left_staged]
    exact hsteady _ _ (hx _ hbegun).2
  · rw [callsOf_stageLog]
    exact filter_eq_nil hmade

theorem Shuns.andThen (hx : Shuns f K x) (hy : Shuns f K y) : Shuns f K (do x; y) := by
  intro s hs
  obtain ⟨hleft, log, htells, hlog⟩ := hx s hs
  cases hfailure : failure? x s with
  | some e =>
      have hsame : left (do x; y) s = left x s := left_bind_of_error (eq_error_of_failure? hfailure)
      exact ⟨hsame ▸ hleft, log, htells.failed hfailure, hlog⟩
  | none =>
      have hsame : left (do x; y) s = left y (left x s) :=
        left_bind_of_ok (eq_ok_of_failure? hfailure)
      obtain ⟨hleft', log', htells', hlog'⟩ := hy (left x s) hleft
      refine ⟨hsame ▸ hleft', _, htells.andThen hfailure htells', ?_⟩
      rw [callsOf_append, List.filter_append, hlog, hlog', List.append_nil]

theorem Shuns.thenAlways (hx : Shuns f K x) (hy : Shuns f K y) : Shuns f K (thenAlways x y) := by
  intro s hs
  obtain ⟨hleft, log, htells, hlog⟩ := hx s hs
  obtain ⟨hleft', log', htells', hlog'⟩ := hy (left x s) hleft
  rw [left_thenAlways]
  refine ⟨hleft', _, htells.thenAlways htells', ?_⟩
  rw [callsOf_append, List.filter_append, hlog, hlog', List.append_nil]

theorem Settles.after (hx : Shuns f (fun _ => True) x) (hy : Settles f scale y) :
    Settles f scale (do x; y) := by
  intro s hopening
  obtain ⟨-, log, htells, hlog⟩ := hx s trivial
  cases hfailure : failure? x s with
  | some e => exact ⟨log, htells.failed hfailure, .inl hlog⟩
  | none =>
      obtain ⟨log', htells', hsettled⟩ := hy (left x s) (by rwa [htells.refuses])
      rw [htells.refuses] at hsettled
      refine ⟨_, htells.andThen hfailure htells', hsettled.congr ?_⟩
      rw [callsOf_append, List.filter_append, hlog, List.nil_append]

theorem Settles.thenAlways (hx : Settles f scale x) (hy : Shuns f (fun _ => True) y) :
    Settles f scale (thenAlways x y) := by
  intro s hopening
  obtain ⟨log, htells, hsettled⟩ := hx s hopening
  obtain ⟨-, log', htells', hlog'⟩ := hy (left x s) trivial
  refine ⟨_, htells.thenAlways htells', hsettled.congr ?_⟩
  rw [callsOf_append, List.filter_append, hlog', List.append_nil]

/-- A device is made ready with its facility, used, and given back. -/
theorem Settles.bracket {δ : Type} {wanted : List HostCall} {result : Except Failure δ}
    {ready : HostM δ} {put : δ → Session → Session} {d : DeviceKind}
    {closingCalls : (HostCall → Bool) → List HostCall}
    (hbelongs : Belongs f scale wanted result closingCalls) (hready : Host.Asks wanted result ready)
    (hhost : ∀ device s, (put device s).host = s.host)
    (hput : ∀ device s, result = .ok device → K (put device s)) (hsteady : Steady K)
    (hbody : Shuns f K body)
    (hback : ∀ s, K s → (left y s).host = s.host.tell (closingCalls s.host.refuses)) :
    Settles f scale (do
      staged (.acquire d) (do let device ← withHost ready; modify (put device))
      Session.thenAlways body (staged (.release d) y)) := by
  intro s hopening
  have hbegun : (s.noted (.begun (.acquire d))).host.refuses = s.host.refuses := rfl
  rcases acquire_cases hready put (s.noted (.begun (.acquire d))) with
    ⟨device, hresult, haccepted, hdone⟩ | ⟨e, hwhy, hdone⟩
  · -- The device is ready, so the body runs on it and leaves the facility open.
    have htells : Tells _ s (stageLog (.acquire d) wanted _) :=
      (tells_of_tell (by rw [left_of_ok hdone, hhost])).staged
    have hfailure := (failure?_staged (.acquire d) _ s).trans (failure?_of_ok hdone)
    rw [hfailure] at htells
    have hK := hsteady (.ended (.acquire d) none) _ (hput device
      { s.noted (.begun (.acquire d)) with
        host := (s.noted (.begun (.acquire d))).host.tell wanted } hresult)
    have hleft := (left_staged (.acquire d) _ s).trans
      (by rw [left_of_ok hdone, failure?_of_ok hdone])
    rw [← hleft] at hK
    obtain ⟨hK', log, htells', hlog⟩ := hbody _ hK
    have hrelease := (tells_of_tell (hback _ (hsteady (.begun (.release d)) _ hK'))).staged
    have hrefuses := htells'.refuses.trans htells.refuses
    refine ⟨_, htells.andThen hfailure (htells'.thenAlways hrelease), ?_⟩
    rw [callsOf_append, callsOf_append, callsOf_stageLog, callsOf_stageLog, ← List.append_assoc]
    have hmade : (wanted ++ callsOf log).filter f.touches = [f.opening] := by
      rw [List.filter_append, hbelongs.opens device hresult, hlog, List.append_nil]
    have hgiven := hbelongs.givenBack s.host.refuses device _ hresult haccepted hmade
    rw [← hrefuses] at hgiven ⊢
    exact hgiven
  · -- Nothing guards a device that did not become ready, so these calls are all there are.
    have htells : Tells _ s (stageLog (.acquire d) (Host.through s.host.refuses wanted) _) :=
      (tells_of_tell (by rw [left_of_error hdone, hbegun])).staged
    have hfailure := (failure?_staged (.acquire d) _ s).trans (failure?_of_error hdone)
    refine ⟨_, htells.failed hfailure, ?_⟩
    rw [callsOf_stageLog]
    exact hbelongs.failed s.host.refuses hopening hwhy

theorem shuns_of_proceeds {J : FrontEnd → FrontEnd → Prop}
    (hx : ∀ display speaker, Proceeds display speaker x) (stage : Stage) :
    Shuns f (Kinds J) (staged stage x) := by
  refine .staged (fun _ _ hs => hs) ?_ stage
  exact (Proceeds.keeps hx).mono fun _ => touches_of_routine

end Session

section Launch
open Session Startup
variable (stream : RandomBytes) (p : Prepared) {J : FrontEnd → FrontEnd → Prop}

theorem shuns_runLoop : Shuns f (Kinds J) (runLoop stream p) :=
  shuns_of_proceeds (proceeds_announced stream p) .loop

theorem shuns_acquireDisplay
    (hready : ∀ display speaker, J display speaker → J p.frontEnd speaker)
    (h : ofDisplay p.frontEnd ≠ some f) :
    Shuns f (Kinds J) (acquireDisplay p.frontEnd p.scale) := by
  refine .staged (fun _ _ hs => hs) ?_ _
  refine keeps_acquire (Display.asks_acquire p.frontEnd p.scale)
    (fun display s => { s with display }) (fun _ _ => rfl) (fun _ _ hs => hs) ?_
    ((touches_of_mem_display h).1 _)
  intro device s hdevice hs
  show J device.kind s.speaker.kind
  rw [Display.kind_of_opened hdevice]
  exact hready _ _ hs

theorem shuns_acquireSpeaker
    (hready : ∀ display speaker, J display speaker → J display p.speaker)
    (h : ofSpeaker p.speaker ≠ some f) : Shuns f (Kinds J) (acquireSpeaker p.speaker) := by
  refine .staged (fun _ _ hs => hs) ?_ _
  refine keeps_acquire (Speaker.asks_acquire p.speaker) (fun speaker s => { s with speaker })
    (fun _ _ => rfl) (fun _ _ hs => hs) ?_ (touches_of_mem_speaker h).1
  rintro device s hdevice hs
  cases hdevice
  exact hready _ _ hs

theorem shuns_releaseSpeaker
    (hspeaker : ∀ display speaker, J display speaker → ofSpeaker speaker ≠ some f) :
    Shuns f (Kinds J) releaseSpeaker := by
  refine .staged (fun _ _ hs => hs) (keeps_releaseSpeaker fun _ _ _ hs => ?_) _
  exact (touches_of_mem_speaker (hspeaker _ _ hs)).2 _

theorem shuns_releaseDisplay
    (hdisplay : ∀ display speaker, J display speaker → ofDisplay display ≠ some f) :
    Shuns f (Kinds J) releaseDisplay := by
  refine .staged (fun _ _ hs => hs) (keeps_releaseDisplay fun _ _ _ hs => ?_) _
  exact (touches_of_mem_display (hdisplay _ _ hs)).2 _

theorem shuns_withSpeakerReady
    (hready : ∀ display speaker, J display speaker → J display p.speaker)
    (hspeaker : ∀ display speaker, J display speaker → ofSpeaker speaker ≠ some f)
    (h : ofSpeaker p.speaker ≠ some f) : Shuns f (Kinds J) (withSpeakerReady stream p) :=
  (shuns_acquireSpeaker p hready h).andThen
    ((shuns_runLoop stream p).thenAlways (shuns_releaseSpeaker hspeaker))

theorem shuns_acquireControls : Shuns f (Kinds J) (acquireControls p.frontEnd p.layout) :=
  shuns_of_proceeds (proceeds_makeReady_controls p) (.acquire .controls)

theorem shuns_releaseControls : Shuns f (Kinds J) releaseControls :=
  shuns_of_proceeds (fun _ _ => proceeds_withControls Controls.listens_release) _

theorem shuns_matchScreen : Shuns f (Kinds J) matchScreen :=
  shuns_of_proceeds (fun _ _ => proceeds_withDisplay (Display.works_setResolution _ _)) _

theorem shuns_fitted
    (hready : ∀ display speaker, J display speaker → J display p.speaker)
    (hspeaker : ∀ display speaker, J display speaker → ofSpeaker speaker ≠ some f)
    (h : ofSpeaker p.speaker ≠ some f) :
    Shuns f (Kinds J) (do matchScreen; withControlsReady stream p) :=
  shuns_matchScreen.andThen ((shuns_acquireControls p).andThen
    ((shuns_withSpeakerReady stream p hready hspeaker h).thenAlways shuns_releaseControls))

/-- No device in use has the facility. -/
def Away (f : Facility) (display speaker : FrontEnd) : Prop :=
  ofDisplay display ≠ some f ∧ ofSpeaker speaker ≠ some f

theorem shuns_launch (hdisplay : ofDisplay p.frontEnd ≠ some f)
    (hspeaker : ofSpeaker p.speaker ≠ some f) : Shuns f (Kinds f.Away) (launch stream p) := by
  refine (shuns_acquireDisplay p (fun _ _ hs => ⟨hdisplay, hs.2⟩) hdisplay).andThen ?_
  refine .thenAlways ?_ (shuns_releaseDisplay fun _ _ hs => hs.1)
  exact shuns_fitted stream p (fun _ _ hs => ⟨hs.1, hspeaker⟩) (fun _ _ hs => hs.2) hspeaker

theorem settles_withSpeakerReady (h : ofSpeaker p.speaker = some f) :
    Settles f scale (withSpeakerReady stream p) := by
  refine .bracket (K := fun s => s.speaker.kind = p.speaker) (belongs_speaker h)
    (Speaker.asks_acquire p.speaker) (fun _ _ => rfl) ?_ (fun _ _ hs => hs)
    (shuns_runLoop stream p (J := fun _ speaker => speaker = p.speaker)) ?_
  · rintro device s hdevice
    cases hdevice
    rfl
  · intro s hs
    rw [left_withSpeaker]
    show (left Speaker.release ⟨s.host, s.speaker⟩).host = _
    rw [Speaker.host_left_release, hs]

/-- The body of the launch uses no facility of a display. -/
theorem settles_launch_of_display (h : ofDisplay p.frontEnd = some f) :
    Settles f p.scale (launch stream p) := by
  have hother : ∀ speaker, ofSpeaker speaker ≠ some f := fun speaker hspeaker =>
    ofDisplay_ne_mixer (eq_mixer_of_ofSpeaker hspeaker ▸ h)
  have hbody : Shuns f (Kinds fun display _ => display = p.frontEnd)
      (do matchScreen; withControlsReady stream p) :=
    shuns_fitted stream p (fun _ _ hs => hs) (fun _ speaker _ => hother speaker) (hother _)
  refine .bracket (belongs_display h) (Display.asks_acquire p.frontEnd p.scale)
    (fun _ _ => rfl) ?_ (fun _ _ hs => hs) hbody ?_
  · intro device s hdevice
    exact Display.kind_of_opened hdevice
  · intro s hs
    rw [left_withDisplay]
    show (left Display.release ⟨s.host, s.display⟩).host = _
    rw [Display.host_left_release, hs]

/-- Around the mixer no display has anything to do with it. -/
theorem settles_launch_of_speaker (h : ofSpeaker p.speaker = some f) :
    Settles f p.scale (launch stream p) := by
  obtain rfl := eq_mixer_of_ofSpeaker h
  have hcontrols : Settles mixer p.scale (withControlsReady stream p) :=
    .after (shuns_acquireControls (J := fun _ _ => True) p)
      (.thenAlways (settles_withSpeakerReady stream p h)
        (shuns_releaseControls (J := fun _ _ => True)))
  exact .after (shuns_acquireDisplay (J := fun _ _ => True) p (fun _ _ hs => hs) ofDisplay_ne_mixer)
    (.thenAlways (.after (shuns_matchScreen (J := fun _ _ => True)) hcontrols)
      (shuns_releaseDisplay (J := fun _ _ => True) fun _ _ _ => ofDisplay_ne_mixer))

theorem settles_launch (s : Session) (hs : Kinds f.Away s)
    (hopening : s.host.refuses f.opening = false) :
    ∃ log, Tells (launch stream p) s log ∧ f.Settled s.host.refuses p.scale (callsOf log) := by
  by_cases hdisplay : ofDisplay p.frontEnd = some f
  · exact settles_launch_of_display stream p hdisplay s hopening
  · by_cases hspeaker : ofSpeaker p.speaker = some f
    · exact settles_launch_of_speaker stream p hspeaker s hopening
    · obtain ⟨-, log, htells, hlog⟩ := shuns_launch stream p hdisplay hspeaker s hs
      exact ⟨log, htells, .inl hlog⟩

end Launch

end Facility

namespace Startup

def Ending.calls (ending : Ending) (host : Host) : List HostCall := callsOf (ending.log host)

/-- Once a facility is opened on the host, it is closed exactly if no call is refused that lies
in between and makes its device ready or gives it back, and the scale is of use. -/
theorem run_closes_iff (f : Facility) (stream : RandomBytes) (installed : Installed)
    (files : ProgramFile.Files) (host : Host) (o : Options) (before after : List HostCall)
    (hcalls : (run stream installed files host o).calls host = before ++ f.opening :: after)
    (hopening : host.refuses f.opening = false) :
    ∃ scale, o.scale = some scale ∧ (f.closing ∈ after ↔ f.Lasts host.refuses scale) := by
  rcases run_cases stream installed files host o with
    ⟨e, remarks, -, hrun⟩ | ⟨p, remarks, s, hprepare, hs, hrun⟩
  · rw [hrun] at hcalls
    have hnil : before ++ f.opening :: after = [] := hcalls.symm
    simp at hnil
  · obtain ⟨findings, hfindings⟩ := exists_findings hprepare
    refine ⟨p.scale, hfindings.scale, ?_⟩
    have haway : Session.Kinds f.Away (.begin host p.machine remarks) := ⟨nofun, nofun⟩
    obtain ⟨log, htells, hsettled⟩ := Facility.settles_launch stream p _ haway hopening
    have hlog : (run stream installed files host o).log host = log :=
      Ending.log_eq (congrArg Ending.session hrun) (hs ▸ htells.transcript)
    have hmade : callsOf log = before ++ f.opening :: after := by
      rw [← hcalls, Ending.calls, hlog]
    rw [hmade] at hsettled
    exact hsettled.closing_mem_iff

def emptyAtTerminal : Options where
  programName := some (.text "test.ch8")
  clockSpeed := some .null
  frontEnd := some (.text "curses")
  scale := some .null
  muted := some .null
  layout := some (.text "")
  traced := some (.flag false)

theorem terminal_is_closed_again :
    let calls :=
      (run (fun _ => 0) ⟨false, true⟩ (fun _ => .ok #[]) .quiet emptyAtTerminal).calls .quiet
    calls = [] ++ Facility.terminal.opening :: calls.tail ∧
      Host.quiet.refuses Facility.terminal.opening = false ∧
      Facility.terminal.closing ∈ calls.tail ∧
      Facility.terminal.Lasts Host.quiet.refuses .null := by
  intro calls
  have hcalls : calls = [] ++ Facility.terminal.opening :: calls.tail := by decide +kernel
  have hclosed : Facility.terminal.closing ∈ calls.tail := by decide +kernel
  obtain ⟨scale, hscale, hiff⟩ := run_closes_iff .terminal _ _ _ _ _ [] _ hcalls rfl
  cases hscale
  exact ⟨hcalls, rfl, hclosed, hiff.mp hclosed⟩

/-- A terminal that cannot hide its cursor is not given back, although it could be. -/
theorem terminal_stays_open_without_cursor :
    let host := { Host.quiet with refuses := fun c => c == .terminal (.cursor 0) }
    let calls := (run (fun _ => 0) ⟨false, true⟩ (fun _ => .ok #[]) host emptyAtTerminal).calls host
    Facility.terminal.opening ∈ calls ∧ host.refuses Facility.terminal.opening = false ∧
      host.refuses Facility.terminal.closing = false ∧ Facility.terminal.closing ∉ calls := by
  decide +kernel

end Startup
end Chip8
