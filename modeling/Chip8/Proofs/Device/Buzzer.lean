import Chip8.Proofs.Host.Devices

/-!
# Buzzers followed at their edges

A speaker is told again and again whether the buzzer sounds, and calls its host only where that
changes. In the window a change starts or stops the looped sound, in turn, and so the sound plays
exactly while the buzzer was told to sound last. In the terminal every onset of the buzzer is one
beep. A window's speaker that is given back has stopped its sound and closed its mixer.
-/
namespace Chip8

/-- The calls that speakers make. -/
def HostCall.isAudible : HostCall → Bool
  | .mixer _ | .terminal .beep => true
  | _ => false

structure Mixer where
  ready : Bool
  /-- The sound was started and not stopped since. -/
  playing : Bool
  deriving DecidableEq

namespace Mixer

def silent : Mixer := ⟨false, false⟩

def hear (m : Mixer) : HostCall → Mixer
  | .mixer .acquire => { m with ready := true }
  | .mixer (.waveform _) => { m with playing := false }
  | .mixer .play => { m with playing := true }
  | .mixer .stop => { m with playing := false }
  | .mixer .release => { m with ready := false }
  | _ => m

def after (m : Mixer) (calls : List HostCall) : Mixer := calls.foldl hear m

theorem after_append (m : Mixer) (made made' : List HostCall) :
    m.after (made ++ made') = (m.after made).after made' := List.foldl_append

end Mixer

namespace Speaker
variable {kind : FrontEnd} {s : Attached Speaker}

/-- Tells a speaker one thing after the other. -/
def follow (told : List Bool) : DeviceM Speaker Unit := told.forM gate

/-- What a speaker was told last; when it is new the buzzer does not sound. -/
def lastTold (told : List Bool) : Bool := told.getLastD false

/-- Everything that a speaker is told, each with what it was told before that. -/
def steps (before : Bool) (told : List Bool) : List (Bool × Bool) := (before :: told).zip told

def changes (told : List Bool) : Nat := (steps false told).countP fun step => step.1 ≠ step.2

def onsets (told : List Bool) : Nat := (steps false told).count (false, true)

/-- Calls that start and stop the looped sound in turn; the first starts it unless it plays. -/
def switching : Bool → Nat → List HostCall
  | _, 0 => []
  | false, n + 1 => .mixer .play :: switching true n
  | true, n + 1 => .mixer .stop :: switching false n

/-! ## What is asked of the host -/

theorem isAudible_of_mem_edgeCalls {before on : Bool} :
    ∀ c ∈ edgeCalls kind before on, c.isAudible = true := by
  cases kind <;> cases before <;> cases on <;> simp [edgeCalls, HostCall.isAudible]

theorem gate_eq (haccepts : ∀ c, c.isAudible = true → s.host.refuses c = false) (on : Bool) :
    gate on s =
      .ok () ⟨s.host.tell (edgeCalls s.device.kind s.device.on on), s.device.kind, on⟩ := by
  have hedge (c : HostCall) (hc : c ∈ edgeCalls s.device.kind s.device.on on) :
      s.host.refuses c = false := haccepts c (isAudible_of_mem_edgeCalls c hc)
  unfold gate
  rw [current_bind, bind_of_ok (onHost_performAll hedge)]
  rfl

/-- The calls at all edges, in order. -/
def callsAlong (kind : FrontEnd) (before : Bool) (told : List Bool) : List HostCall :=
  (steps before told).flatMap fun step => edgeCalls kind step.1 step.2

theorem callsAlong_cons (kind : FrontEnd) (before on : Bool) (told : List Bool) :
    callsAlong kind before (on :: told) =
      edgeCalls kind before on ++ callsAlong kind on told := rfl

theorem follow_eq (haccepts : ∀ c, c.isAudible = true → s.host.refuses c = false)
    (told : List Bool) :
    follow told s =
      .ok () ⟨s.host.tell (callsAlong s.device.kind s.device.on told),
        s.device.kind, told.getLastD s.device.on⟩ := by
  -- The rest is told to a speaker that remembers something else, so the induction is over all.
  induction told generalizing s with
  | nil =>
      rw [callsAlong, steps, List.zip_nil_right, List.flatMap_nil, Host.tell_nil]
      rfl
  | cons on told ih =>
      calc
        follow (on :: told) s =
            follow told ⟨s.host.tell (edgeCalls s.device.kind s.device.on on),
              s.device.kind, on⟩ := bind_of_ok (gate_eq haccepts on)
        _ = .ok () ⟨(s.host.tell (edgeCalls s.device.kind s.device.on on)).tell
              (callsAlong s.device.kind on told), s.device.kind, told.getLastD on⟩ := ih haccepts
        _ = _ := by rw [callsAlong_cons, Host.tell_append, List.getLastD_cons]

theorem isAudible_of_mem_openingCalls : ∀ c ∈ openingCalls kind, c.isAudible = true := by
  cases kind <;> simp [openingCalls, HostCall.isAudible]

theorem acquire_eq {h : Host} (haccepts : ∀ c, c.isAudible = true → h.refuses c = false)
    (kind : FrontEnd) : acquire kind h = .ok ⟨kind, false⟩ (h.tell (openingCalls kind)) :=
  (asks_acquire kind).of_accepted h fun c hc => haccepts c (isAudible_of_mem_openingCalls c hc)

theorem release_window_eq (hkind : s.device.kind = .window)
    (haccepts : ∀ c, c.isAudible = true → s.host.refuses c = false) :
    release s = .ok () { s with host := s.host.tell [.mixer .stop, .mixer .release] } := by
  have hclosing : ∀ c ∈ [HostCall.mixer .stop, .mixer .release], c.isAudible = true := by
    simp [HostCall.isAudible]
  unfold release
  rw [current_bind, hkind]
  exact onHost_performAll fun c hc => haccepts c (hclosing c hc)

/-- All that a new speaker asks of its host while it is told some things. -/
theorem follow_new_eq {h : Host} (haccepts : ∀ c, c.isAudible = true → h.refuses c = false)
    (kind : FrontEnd) (told : List Bool) :
    follow told ⟨h, kind, false⟩ =
      .ok () ⟨h.tell (callsAlong kind false told), kind, lastTold told⟩ :=
  follow_eq (s := ⟨h, kind, false⟩) haccepts told

/-! ## What is heard -/

theorem edgeCalls_window (before on : Bool) :
    edgeCalls .window before on =
      if before = false ∧ on = true then [.mixer .play]
      else if before = true ∧ on = false then [.mixer .stop] else [] := by
  cases before <;> cases on <;> rfl

theorem edgeCalls_terminal (before on : Bool) :
    edgeCalls .terminal before on =
      if before = false ∧ on = true then [.terminal .beep] else [] := by
  cases before <;> cases on <;> rfl

theorem callsAlong_window (before : Bool) (told : List Bool) :
    callsAlong .window before told =
      switching before ((steps before told).countP fun step => step.1 ≠ step.2) := by
  induction told generalizing before with
  | nil => rfl
  | cons on told ih =>
      rw [callsAlong_cons, ih]
      cases before <;> cases on <;> simp [steps, edgeCalls, switching]

theorem callsAlong_terminal (before : Bool) (told : List Bool) :
    callsAlong .terminal before told =
      List.replicate ((steps before told).count (false, true)) (.terminal .beep) := by
  induction told generalizing before with
  | nil => rfl
  | cons on told ih =>
      rw [callsAlong_cons, ih]
      cases before <;> cases on <;> simp [steps, edgeCalls, List.replicate_succ]

theorem playing_after_edgeCalls (m : Mixer) (on : Bool) :
    (m.after (edgeCalls .window m.playing on)).playing = on := by
  obtain ⟨ready, playing⟩ := m
  cases playing <;> cases on <;> rfl

/-- The sound plays as the buzzer was told to last, if it did so before. -/
theorem playing_after_callsAlong (m : Mixer) (told : List Bool) :
    (m.after (callsAlong .window m.playing told)).playing = told.getLastD m.playing := by
  induction told generalizing m with
  | nil => rfl
  | cons on told ih =>
      have hrest := ih (m.after (edgeCalls .window m.playing on))
      rw [playing_after_edgeCalls] at hrest
      rw [callsAlong_cons, Mixer.after_append, hrest, List.getLastD_cons]

/-- Whatever the calls before did, the sound of a new speaker plays as it was told last. -/
theorem playing_after_told (calls : List HostCall) (told : List Bool) :
    (Mixer.silent.after
        (calls ++ (openingCalls .window ++ callsAlong .window false told))).playing =
      lastTold told := by
  rw [Mixer.after_append, Mixer.after_append]
  exact playing_after_callsAlong ((Mixer.silent.after calls).after (openingCalls .window)) told

/-- Whatever a new speaker was told, it calls its host next only at an edge. In the window the
sound is started and stopped in turn, plays exactly if the speaker was told so last, and is
stopped in the end, with its mixer closed. In the terminal there is one beep for each onset and
no other call. -/
theorem follows_buzzer_at_edges (h : Host)
    (haccepts : ∀ c, c.isAudible = true → h.refuses c = false) (told : List Bool) :
    (∃ new s, acquire .window h = .ok ⟨.window, false⟩ new ∧
      new = h.tell [.mixer .configure, .mixer .acquire, .mixer (.waveform squareWave),
        .mixer (.volume volume)] ∧
      follow told ⟨new, .window, false⟩ = .ok () s ∧
      s.host = new.tell (switching false (changes told)) ∧
      (∀ on, gate on s = .ok () ⟨s.host.tell
          (if lastTold told = false ∧ on = true then [.mixer .play]
          else if lastTold told = true ∧ on = false then [.mixer .stop] else []), .window, on⟩) ∧
      ((Mixer.silent.after s.host.calls).playing = true ↔ lastTold told = true) ∧
      ∃ closed, release s = .ok () ⟨closed, s.device⟩ ∧
        closed = s.host.tell [.mixer .stop, .mixer .release] ∧
        Mixer.silent.after closed.calls = ⟨false, false⟩) ∧
    ∃ s, acquire .terminal h = .ok ⟨.terminal, false⟩ h ∧
      follow told ⟨h, .terminal, false⟩ = .ok () s ∧
      s.host = h.tell (List.replicate (onsets told) (.terminal .beep)) ∧
      (∀ on, gate on s = .ok () ⟨s.host.tell
          (if lastTold told = false ∧ on = true then [.terminal .beep] else []), .terminal, on⟩) ∧
      release s = .ok () s := by
  constructor
  · let new := h.tell (openingCalls .window)
    let s : Attached Speaker :=
      ⟨new.tell (callsAlong .window false told), .window, lastTold told⟩
    have hrelease := release_window_eq (s := s) rfl haccepts
    have hplaying : (Mixer.silent.after s.host.calls).playing = lastTold told := by
      rw [Host.calls_tell, Host.calls_tell, List.append_assoc, playing_after_told]
    refine ⟨new, s, acquire_eq haccepts .window, rfl,
      follow_new_eq (h := new) haccepts .window told, ?_, fun on => ?_, ?_, _, hrelease, rfl, ?_⟩
    · exact congrArg new.tell (callsAlong_window false told)
    · rw [gate_eq (s := s) haccepts, edgeCalls_window]
    · rw [hplaying]
    · rw [Host.calls_tell, Mixer.after_append]
      rfl
  · let s : Attached Speaker :=
      ⟨h.tell (callsAlong .terminal false told), .terminal, lastTold told⟩
    refine ⟨s, ?_, follow_new_eq haccepts .terminal told, ?_, fun on => ?_, rfl⟩
    · rw [acquire_eq haccepts, show openingCalls .terminal = [] from rfl, Host.tell_nil]
    · exact congrArg h.tell (callsAlong_terminal false told)
    · rw [gate_eq (s := s) haccepts, edgeCalls_terminal]

/-- A short sound, a pause and another sound. -/
theorem two_sounds_are_played :
    let told := [true, true, false, true]
    (∀ c, c.isAudible = true → Host.quiet.refuses c = false) ∧
      (∃ s, follow told ⟨Host.quiet.tell (openingCalls .window), .window, false⟩ = .ok () s ∧
        s.host.calls = openingCalls .window ++ [.mixer .play, .mixer .stop, .mixer .play] ∧
        (Mixer.silent.after s.host.calls).playing = true) ∧
      ∃ s, follow told ⟨Host.quiet, .terminal, false⟩ = .ok () s ∧
        s.host.calls = [.terminal .beep, .terminal .beep] := by
  intro told
  have haccepts : ∀ c, c.isAudible = true → Host.quiet.refuses c = false := fun _ _ => rfl
  obtain ⟨⟨new, s, -, hnew, hfollow, hhost, -, hplaying, -⟩, s', -, hfollow', hhost', -⟩ :=
    follows_buzzer_at_edges Host.quiet haccepts told
  obtain rfl : new = Host.quiet.tell (openingCalls .window) := hnew
  refine ⟨haccepts, ⟨s, hfollow, ?_, hplaying.mpr rfl⟩, s', hfollow', ?_⟩
  · rw [hhost]
    rfl
  · rw [hhost']
    rfl

end Speaker
end Chip8
