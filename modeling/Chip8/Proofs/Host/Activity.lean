import Chip8.Session

/-!
# What an activity leaves behind

An activity ends in a state, whether or not it fails. What it does to the host is told
by the calls that it adds to the transcript. `Keeps` says of an activity that from
states with a property it makes calls of some kind only and leaves the property in
place; it is closed under doing one thing after another.
-/
namespace Chip8
variable {σ α β : Type}

/-- The state that an activity ends in. -/
def left (x : EStateM Failure σ α) (s : σ) : σ :=
  match x s with
  | .ok _ s => s
  | .error _ s => s

def failure? (x : EStateM Failure σ α) (s : σ) : Option Failure :=
  match x s with
  | .ok _ _ => none
  | .error e _ => some e

def value? (x : EStateM Failure σ α) (s : σ) : Option α :=
  match x s with
  | .ok a _ => some a
  | .error _ _ => none

theorem eq_ok_of_value? {x : EStateM Failure σ α} {s : σ} {a : α} (h : value? x s = some a) :
    x s = .ok a (left x s) := by
  unfold value? at h
  unfold left
  cases hx : x s with
  | ok b s' =>
      rw [hx] at h
      cases h
      rfl
  | error e s' =>
      rw [hx] at h
      cases h

theorem left_of_ok {x : EStateM Failure σ α} {s s' : σ} {a : α} (h : x s = .ok a s') :
    left x s = s' := by
  simp only [left, h]

theorem left_of_error {x : EStateM Failure σ α} {s s' : σ} {e : Failure}
    (h : x s = .error e s') : left x s = s' := by
  simp only [left, h]

theorem failure?_of_ok {x : EStateM Failure σ α} {s s' : σ} {a : α} (h : x s = .ok a s') :
    failure? x s = none := by
  simp only [failure?, h]

theorem failure?_of_error {x : EStateM Failure σ α} {s s' : σ} {e : Failure}
    (h : x s = .error e s') : failure? x s = some e := by
  simp only [failure?, h]

theorem eq_ok_of_failure? {x : EStateM Failure σ Unit} {s : σ} (h : failure? x s = none) :
    x s = .ok () (left x s) := by
  unfold failure? at h
  unfold left
  split at h
  · rename_i heq
    rw [heq]
  · cases h

theorem eq_error_of_failure? {x : EStateM Failure σ Unit} {s : σ} {e : Failure}
    (h : failure? x s = some e) : x s = .error e (left x s) := by
  unfold failure? at h
  unfold left
  split at h
  · cases h
  · rename_i heq
    cases h
    rw [heq]

theorem bind_apply (x : EStateM Failure σ α) (f : α → EStateM Failure σ β) (s : σ) :
    (x >>= f) s =
      match x s with
      | .ok a s' => f a s'
      | .error e s' => .error e s' := by
  simp only [bind, EStateM.bind]
  cases x s <;> rfl

theorem bind_of_ok {x : EStateM Failure σ α} {f : α → EStateM Failure σ β} {s s' : σ} {a : α}
    (h : x s = .ok a s') : (x >>= f) s = f a s' := by
  rw [bind_apply, h]

theorem bind_of_error {x : EStateM Failure σ α} {f : α → EStateM Failure σ β} {s s' : σ}
    {e : Failure} (h : x s = .error e s') : (x >>= f) s = .error e s' := by
  rw [bind_apply, h]

theorem bind_eq_ok_iff {x : EStateM Failure σ α} {f : α → EStateM Failure σ β} {s after : σ}
    {b : β} : (x >>= f) s = .ok b after ↔ ∃ a s', x s = .ok a s' ∧ f a s' = .ok b after := by
  rw [bind_apply]
  cases x s with
  | ok a s' =>
      constructor
      · intro h
        exact ⟨a, s', rfl, h⟩
      · rintro ⟨_, _, heq, h⟩
        cases heq
        exact h
  | error e s' => simp

theorem left_bind_of_ok {x : EStateM Failure σ α} {f : α → EStateM Failure σ β} {s s' : σ}
    {a : α} (h : x s = .ok a s') : left (x >>= f) s = left (f a) s' := by
  simp only [left, bind_of_ok h]

theorem left_bind_of_error {x : EStateM Failure σ α} {f : α → EStateM Failure σ β} {s s' : σ}
    {e : Failure} (h : x s = .error e s') : left (x >>= f) s = s' := by
  simp only [left, bind_of_error h]

namespace Host

def tell (h : Host) (made : List HostCall) : Host :=
  { h with transcript := h.transcript ++ (made.map Event.call).toArray }

/-- One host came from another by calls of some kind: it refuses what it refused, and no
clock reading was added. -/
structure Grew (P : HostCall → Prop) (h after : Host) : Prop where
  refuses : after.refuses = h.refuses
  readings : after.readings <:+ h.readings
  transcript : ∃ made : List HostCall, (∀ c ∈ made, P c) ∧
    after.transcript = (h.tell made).transcript

variable {P Q : HostCall → Prop} {h after later : Host}

theorem tell_append (h : Host) (made made' : List HostCall) :
    (h.tell made).tell made' = h.tell (made ++ made') := by
  simp [tell, Array.append_assoc]

theorem calls_tell (h : Host) (made : List HostCall) : (h.tell made).calls = h.calls ++ made := by
  unfold calls tell
  rw [Array.toList_append, List.filterMap_append, List.filterMap_map]
  congr 1
  exact List.filterMap_some

theorem calls_of_transcript (htranscript : after.transcript = h.transcript) :
    after.calls = h.calls := by
  unfold calls
  rw [htranscript]

theorem Grew.of_tell {made : List HostCall} (hmade : ∀ c ∈ made, P c) : Grew P h (h.tell made) :=
  ⟨rfl, List.suffix_rfl, made, hmade, rfl⟩

theorem Grew.of_same (hrefuses : after.refuses = h.refuses)
    (htranscript : after.transcript = h.transcript) (hreadings : after.readings <:+ h.readings) :
    Grew P h after :=
  ⟨hrefuses, hreadings, [], by simp, by simp [tell, htranscript]⟩

theorem Grew.refl (h : Host) : Grew P h h := .of_same rfl rfl List.suffix_rfl

theorem Grew.trans (hfirst : Grew P h after) (hsecond : Grew P after later) : Grew P h later := by
  obtain ⟨hrefuses, hreadings, made, hmade, htranscript⟩ := hfirst
  obtain ⟨hrefuses', hreadings', made', hmade', htranscript'⟩ := hsecond
  refine ⟨hrefuses'.trans hrefuses, hreadings'.trans hreadings, made ++ made', ?_, ?_⟩
  · intro c hc
    exact (List.mem_append.mp hc).elim (hmade c) (hmade' c)
  · rw [htranscript', ← tell_append]
    simp only [tell, htranscript]

theorem Grew.mono (hgrew : Grew P h after) (himp : ∀ c, P c → Q c) : Grew Q h after := by
  obtain ⟨hrefuses, hreadings, made, hmade, htranscript⟩ := hgrew
  exact ⟨hrefuses, hreadings, made, fun c hc => himp c (hmade c hc), htranscript⟩

end Host

/-- A state with a host in it. -/
class Hosted (σ : Type) where
  hostOf : σ → Host

instance : Hosted Host := ⟨id⟩

instance {δ : Type} : Hosted (Attached δ) := ⟨Attached.host⟩

instance : Hosted Session := ⟨Session.host⟩

open Hosted (hostOf)

/-- From states with the property `I` the activity makes calls of the kind `P` only, and
ends in a state with the property. -/
def Keeps [Hosted σ] (I : σ → Prop) (P : HostCall → Prop) (x : EStateM Failure σ α) : Prop :=
  ∀ s, I s → Host.Grew P (hostOf s) (hostOf (left x s)) ∧ I (left x s)

namespace Keeps
variable [Hosted σ] {I : σ → Prop} {P Q : HostCall → Prop} {x : EStateM Failure σ α}
  {f : α → EStateM Failure σ β}

theorem mono (h : Keeps I P x) (himp : ∀ c, P c → Q c) : Keeps I Q x :=
  fun s hs => ⟨(h s hs).1.mono himp, (h s hs).2⟩

theorem pure (a : α) : Keeps I P (Pure.pure a : EStateM Failure σ α) :=
  fun s hs => ⟨.refl (hostOf s), hs⟩

theorem throw (e : Failure) : Keeps I P (MonadExcept.throw e : EStateM Failure σ α) :=
  fun s hs => ⟨.refl (hostOf s), hs⟩

theorem bind (hx : Keeps I P x) (hf : ∀ a, Keeps I P (f a)) : Keeps I P (x >>= f) := by
  intro s hs
  obtain ⟨hgrew, hleft⟩ := hx s hs
  cases hresult : x s with
  | ok a s' =>
      rw [left_of_ok hresult] at hgrew hleft
      rw [left_bind_of_ok hresult]
      obtain ⟨hgrew', hleft'⟩ := hf a s' hleft
      exact ⟨hgrew.trans hgrew', hleft'⟩
  | error e s' =>
      rw [left_of_error hresult] at hgrew hleft
      rw [left_bind_of_error hresult]
      exact ⟨hgrew, hleft⟩

theorem get_bind {f : σ → EStateM Failure σ β} (hf : ∀ s, I s → Keeps I P (f s)) :
    Keeps I P (get >>= f) :=
  fun s hs => hf s hs s hs

theorem modify {g : σ → σ} (hhost : ∀ s, hostOf (g s) = hostOf s) (hg : ∀ s, I s → I (g s)) :
    Keeps I P (modify g : EStateM Failure σ Unit) := by
  intro s hs
  refine ⟨?_, hg s hs⟩
  show Host.Grew P (hostOf s) (hostOf (g s))
  rw [hhost]
  exact .refl _

theorem ite {p : Prop} [Decidable p] {x y : EStateM Failure σ α} (hx : Keeps I P x)
    (hy : Keeps I P y) : Keeps I P (if p then x else y) := by
  split
  · exact hx
  · exact hy

/-- Something is done only under a condition, and what follows is done in any case. -/
theorem optional {p : Prop} [Decidable p] {x : EStateM Failure σ PUnit}
    {rest : PUnit → EStateM Failure σ β} (hx : Keeps I P x) (hrest : ∀ u, Keeps I P (rest u)) :
    Keeps I P (if p then x >>= rest else rest ⟨⟩) :=
  .ite (.bind hx hrest) (hrest ⟨⟩)

end Keeps

namespace Host
variable {I : Host → Prop} {P : HostCall → Prop}

theorem note_call (c : HostCall) (h : Host) : note (.call c) h = .ok () (h.tell [c]) := by
  have htell : { h with transcript := h.transcript.push (.call c) } = h.tell [c] := by
    simp [tell]
  rw [← htell]
  rfl

theorem perform_apply (c : HostCall) (h : Host) :
    perform c h =
      if h.refuses c then .error (.refused c) (h.tell [c]) else .ok () (h.tell [c]) := by
  unfold perform
  rw [bind_of_ok (note_call c h)]
  show (if h.refuses c then _ else _ : HostM Unit) (h.tell [c]) = _
  split <;> rfl

theorem perform_of_refused {c : HostCall} {h : Host} (hc : h.refuses c = true) :
    perform c h = .error (.refused c) (h.tell [c]) := by
  rw [perform_apply, if_pos hc]

theorem perform_of_accepted {c : HostCall} {h : Host} (hc : h.refuses c = false) :
    perform c h = .ok () (h.tell [c]) := by
  rw [perform_apply, hc]
  rfl

theorem left_perform (c : HostCall) (h : Host) : left (perform c) h = h.tell [c] := by
  cases hc : h.refuses c with
  | true => exact left_of_error (perform_of_refused hc)
  | false => exact left_of_ok (perform_of_accepted hc)

theorem attempt_apply (c : HostCall) (h : Host) : attempt c h = .ok () (h.tell [c]) :=
  note_call c h

/-- Of some calls in order, those that are made up to the first that is refused. -/
def through (refuses : HostCall → Bool) : List HostCall → List HostCall
  | [] => []
  | c :: rest => if refuses c then [c] else c :: through refuses rest

theorem through_subset (refuses : HostCall → Bool) (wanted : List HostCall) :
    ∀ c ∈ through refuses wanted, c ∈ wanted := by
  induction wanted with
  | nil => simp [through]
  | cons d rest ih =>
      intro c hc
      unfold through at hc
      split at hc
      · rw [List.mem_singleton.mp hc]
        exact .head rest
      · rcases List.mem_cons.mp hc with rfl | hrest
        · exact .head rest
        · exact .tail d (ih c hrest)

theorem through_of_accepted {refuses : HostCall → Bool} {wanted : List HostCall}
    (h : ∀ c ∈ wanted, refuses c = false) : through refuses wanted = wanted := by
  induction wanted with
  | nil => rfl
  | cons c rest ih =>
      obtain ⟨hc, hrest⟩ := List.forall_mem_cons.mp h
      simp [through, hc, ih hrest]

/-- An activity that makes some calls in order, gives up at the first that is refused,
and otherwise has a result that does not depend on the host. -/
structure Asks (wanted : List HostCall) (result : Except Failure α) (x : HostM α) : Prop where
  of_accepted : ∀ h : Host, (∀ c ∈ wanted, h.refuses c = false) →
    x h = compute result (h.tell wanted)
  of_refused : ∀ h : Host, (∃ c ∈ wanted, h.refuses c = true) →
    ∃ e, x h = .error e (h.tell (through h.refuses wanted))

theorem tell_nil (h : Host) : h.tell [] = h := by
  simp [tell]

theorem asks_compute (result : Except Failure α) : Asks [] result (compute result) where
  of_accepted h _ := by rw [tell_nil]
  of_refused h hrefused := by simp at hrefused

theorem Asks.perform {wanted : List HostCall} {result : Except Failure α} {x : HostM α}
    (hx : Asks wanted result x) (c : HostCall) :
    Asks (c :: wanted) result (do Host.perform c; x) where
  of_accepted h haccepted := by
    obtain ⟨hc, hrest⟩ := List.forall_mem_cons.mp haccepted
    calc
      (do Host.perform c; x) h = x (h.tell [c]) := bind_of_ok (perform_of_accepted hc)
      _ = compute result (h.tell (c :: wanted)) := by
        rw [hx.of_accepted (h.tell [c]) hrest, tell_append, List.singleton_append]
  of_refused h hrefused := by
    unfold through
    cases hc : h.refuses c with
    | true => exact ⟨.refused c, bind_of_error (perform_of_refused hc)⟩
    | false =>
        have hrest : ∃ d ∈ wanted, h.refuses d = true := by
          simpa [hc] using hrefused
        obtain ⟨e, he⟩ := hx.of_refused (h.tell [c]) hrest
        refine ⟨e, ?_⟩
        calc
          (do Host.perform c; x) h = x (h.tell [c]) := bind_of_ok (perform_of_accepted hc)
          _ = .error e (h.tell (c :: through h.refuses wanted)) := by
            rw [he, tell_append, List.singleton_append]
            rfl

theorem compute_ok_bind (a : α) (f : α → HostM β) : compute (.ok a) >>= f = f a :=
  funext fun _ => bind_of_ok rfl

theorem compute_error_bind (e : Failure) (f : α → HostM β) :
    compute (.error e) >>= f = compute (.error e) :=
  funext fun _ => bind_of_error rfl

theorem asks_performAll (wanted : List HostCall) : Asks wanted (.ok ()) (performAll wanted) := by
  induction wanted with
  | nil => exact asks_compute (.ok ())
  | cons c rest ih => exact ih.perform c

theorem Asks.thenPure {wanted : List HostCall} {a : α} {x : HostM α} (hx : Asks wanted (.ok a) x)
    (b : β) : Asks wanted (.ok b) (do let _ ← x; pure b) where
  of_accepted h haccepted := bind_of_ok (hx.of_accepted h haccepted)
  of_refused h hrefused :=
    let ⟨e, he⟩ := hx.of_refused h hrefused
    ⟨e, bind_of_error he⟩

theorem Asks.left_eq {wanted : List HostCall} {result : Except Failure α} {x : HostM α}
    (hx : Asks wanted result x) (h : Host) : left x h = h.tell (through h.refuses wanted) := by
  by_cases haccepted : ∀ c ∈ wanted, h.refuses c = false
  · rw [through_of_accepted haccepted]
    unfold left
    rw [hx.of_accepted h haccepted]
    cases result <;> rfl
  · have hrefused : ∃ c ∈ wanted, h.refuses c = true := by simpa using haccepted
    obtain ⟨e, he⟩ := hx.of_refused h hrefused
    exact left_of_error he

variable {P : HostCall → Prop}

/-- Whatever the host is like, the activity makes calls of some kind only. -/
abbrev Makes (P : HostCall → Prop) {α : Type} (x : HostM α) : Prop := Keeps (fun _ => True) P x

theorem makes_of_left {x : HostM α} (h : ∀ host, Grew P host (left x host)) : Makes P x :=
  fun host _ => ⟨h host, trivial⟩

theorem makes_perform {c : HostCall} (hc : P c) : Makes P (perform c) := by
  apply makes_of_left
  intro h
  rw [left_perform]
  exact .of_tell (by simpa using hc)

theorem makes_attempt {c : HostCall} (hc : P c) : Makes P (attempt c) := by
  apply makes_of_left
  intro h
  rw [left_of_ok (attempt_apply c h)]
  exact .of_tell (by simpa using hc)

theorem Asks.makes {wanted : List HostCall} {result : Except Failure α} {x : HostM α}
    (hx : Asks wanted result x) (hwanted : ∀ c ∈ wanted, P c) : Makes P x := by
  apply makes_of_left
  intro h
  rw [hx.left_eq]
  exact .of_tell fun c hc => hwanted c (through_subset h.refuses wanted c hc)

theorem makes_performAll {wanted : List HostCall} (hwanted : ∀ c ∈ wanted, P c) :
    Makes P (performAll wanted) :=
  (asks_performAll wanted).makes hwanted

theorem makes_compute (result : Except Failure α) : Makes P (compute result) := by
  cases result with
  | ok a => exact .pure a
  | error e => exact .throw e

theorem readClock_apply (h : Host) :
    readClock h =
      match h.readings with
      | [] => .error .interrupted h
      | t :: rest => .ok t { h with readings := rest, now := t } := by
  rcases h with ⟨transcript, _ | ⟨t, rest⟩⟩ <;> rfl

theorem makes_readClock : Makes P readClock := by
  apply makes_of_left
  intro h
  unfold left
  rw [readClock_apply]
  cases hreadings : h.readings with
  | nil => exact .refl h
  | cons t rest =>
      refine .of_same rfl rfl ?_
      rw [hreadings]
      exact List.suffix_cons t rest

theorem nextTurn_apply (h : Host) :
    nextTurn h =
      .ok (h.turns.headD Turn.idle)
        { h with turn := h.turns.headD Turn.idle, turns := h.turns.tail } := by
  rcases h with ⟨transcript, readings, now, _ | ⟨turn, rest⟩⟩ <;> rfl

theorem makes_nextTurn : Makes P nextTurn := by
  apply makes_of_left
  intro h
  unfold left
  rw [nextTurn_apply]
  exact .of_same rfl rfl List.suffix_rfl

theorem terminalSize_ok (h : Host) :
    ∃ size sizes, terminalSize h = .ok size { h with sizes } := by
  rcases h with ⟨transcript, readings, now, turns, turn, _ | ⟨size, _ | ⟨next, rest⟩⟩, resizable⟩
  · exact ⟨_, [], rfl⟩
  · exact ⟨_, [size], rfl⟩
  · exact ⟨_, next :: rest, rfl⟩

theorem makes_terminalSize : Makes P terminalSize := by
  apply makes_of_left
  intro h
  obtain ⟨size, sizes, hsize⟩ := h.terminalSize_ok
  rw [left_of_ok hsize]
  exact .of_same rfl rfl List.suffix_rfl

end Host

/-! ## Seen from a device and from a session -/

section Device
variable {δ : Type} {J : δ → Prop} {P : HostCall → Prop}

theorem left_onHost (x : HostM α) (s : Attached δ) :
    left (onHost x) s = { s with host := left x s.host } := by
  unfold left onHost
  cases x s.host <;> rfl

theorem keeps_onHost {x : HostM α} (hx : Host.Makes P x) :
    Keeps (fun s : Attached δ => J s.device) P (onHost x) := by
  intro s hs
  rw [left_onHost]
  exact ⟨(hx s.host trivial).1, hs⟩

theorem onHost_performAll {s : Attached δ} {wanted : List HostCall}
    (haccepted : ∀ c ∈ wanted, s.host.refuses c = false) :
    onHost (Host.performAll wanted) s = .ok () { s with host := s.host.tell wanted } := by
  unfold onHost
  rw [(Host.asks_performAll wanted).of_accepted s.host haccepted]
  rfl

theorem current_bind (f : δ → DeviceM δ β) (s : Attached δ) :
    (current >>= f) s = f s.device s :=
  bind_of_ok (x := current) rfl

theorem adjust_bind (f : δ → δ) (x : DeviceM δ β) (s : Attached δ) :
    (do adjust f; x) s = x { s with device := f s.device } :=
  bind_of_ok (x := adjust f) rfl

theorem left_current_bind (f : δ → DeviceM δ β) (s : Attached δ) :
    left (current >>= f) s = left (f s.device) s :=
  left_bind_of_ok (x := current) rfl

theorem left_adjust_bind (f : δ → δ) (x : DeviceM δ β) (s : Attached δ) :
    left (do adjust f; x) s = left x { s with device := f s.device } :=
  left_bind_of_ok (x := adjust f) rfl

theorem onHost_bind (x : HostM α) (y : HostM β) :
    (do let _ ← onHost (δ := δ) x; onHost y) = onHost (do let _ ← x; y) := by
  funext s
  rw [bind_apply]
  unfold onHost
  rw [bind_apply]
  cases x s.host <;> rfl

theorem keeps_adjust {f : δ → δ} (hf : ∀ d, J d → J (f d)) :
    Keeps (fun s : Attached δ => J s.device) P (adjust f) :=
  Keeps.modify (fun _ => rfl) fun s hs => hf s.device hs

theorem keeps_current_bind {f : δ → DeviceM δ β}
    (hf : ∀ d, J d → Keeps (fun s : Attached δ => J s.device) P (f d)) :
    Keeps (fun s : Attached δ => J s.device) P (current >>= f) :=
  fun s hs => hf s.device hs s hs

end Device

namespace Session
variable {P : HostCall → Prop} {I : Session → Prop}

theorem left_withHost (x : HostM α) (s : Session) :
    left (withHost x) s = { s with host := left x s.host } := by
  unfold left withHost
  cases x s.host <;> rfl

theorem keeps_withHost {x : HostM α} (hhost : ∀ s host, I s → I { s with host })
    (hx : Host.Makes P x) : Keeps I P (withHost x) := by
  intro s hs
  rw [left_withHost]
  exact ⟨(hx s.host trivial).1, hhost s _ hs⟩

theorem left_withDisplay (x : DeviceM Display α) (s : Session) :
    left (withDisplay x) s =
      { s with
        host := (left x ⟨s.host, s.display⟩).host
        display := (left x ⟨s.host, s.display⟩).device } := by
  unfold left withDisplay
  cases x ⟨s.host, s.display⟩ <;> rfl

theorem left_withControls (x : DeviceM Controls α) (s : Session) :
    left (withControls x) s =
      { s with
        host := (left x ⟨s.host, s.controls⟩).host
        controls := (left x ⟨s.host, s.controls⟩).device } := by
  unfold left withControls
  cases x ⟨s.host, s.controls⟩ <;> rfl

theorem left_withSpeaker (x : DeviceM Speaker α) (s : Session) :
    left (withSpeaker x) s =
      { s with
        host := (left x ⟨s.host, s.speaker⟩).host
        speaker := (left x ⟨s.host, s.speaker⟩).device } := by
  unfold left withSpeaker
  cases x ⟨s.host, s.speaker⟩ <;> rfl

theorem left_withMachine (x : Machine → Outcome) (s : Session) :
    left (withMachine x) s =
      { s with
        machine := (x s.machine).machine
        remarks := s.remarks ++ (x s.machine).remarks } := by
  unfold left withMachine
  dsimp only
  cases (x s.machine).stop <;> rfl

/-- A device is either made ready and put in its place, or a call is refused or the device
cannot be had, and everything but the host is as it was. -/
theorem acquire_cases {δ : Type} {wanted : List HostCall} {result : Except Failure δ}
    {ready : HostM δ} (hready : Host.Asks wanted result ready) (put : δ → Session → Session)
    (s : Session) :
    (∃ device, result = .ok device ∧ (∀ c ∈ wanted, s.host.refuses c = false) ∧
      (do let device ← withHost ready; modify (put device) : SessionM Unit) s =
        .ok () (put device { s with host := s.host.tell wanted })) ∨
    ∃ e, ((∃ c ∈ wanted, s.host.refuses c = true) ∨ ∃ e, result = .error e) ∧
      (do let device ← withHost ready; modify (put device) : SessionM Unit) s =
        .error e { s with host := s.host.tell (Host.through s.host.refuses wanted) } := by
  by_cases haccepted : ∀ c ∈ wanted, s.host.refuses c = false
  · have hdone := hready.of_accepted s.host haccepted
    cases result with
    | ok device =>
        refine .inl ⟨device, rfl, haccepted, ?_⟩
        have hhost : withHost ready s = .ok device { s with host := s.host.tell wanted } := by
          rw [withHost, hdone]
          rfl
        exact bind_of_ok hhost
    | error e =>
        refine .inr ⟨e, .inr ⟨e, rfl⟩, ?_⟩
        rw [Host.through_of_accepted haccepted]
        have hhost : withHost ready s = .error e { s with host := s.host.tell wanted } := by
          rw [withHost, hdone]
          rfl
        exact bind_of_error hhost
  · have hrefused : ∃ c ∈ wanted, s.host.refuses c = true := by simpa using haccepted
    obtain ⟨e, hdone⟩ := hready.of_refused s.host hrefused
    refine .inr ⟨e, .inl hrefused, ?_⟩
    have hhost : withHost ready s =
        .error e { s with host := s.host.tell (Host.through s.host.refuses wanted) } := by
      rw [withHost, hdone]
    exact bind_of_error hhost

theorem keeps_acquire {δ : Type} {wanted : List HostCall} {result : Except Failure δ}
    {ready : HostM δ} (hready : Host.Asks wanted result ready) (put : δ → Session → Session)
    (hhost : ∀ device s, (put device s).host = s.host) (hI : ∀ s host, I s → I { s with host })
    (hput : ∀ device s, result = .ok device → I s → I (put device s))
    (hwanted : ∀ c ∈ wanted, P c) :
    Keeps I P (do let device ← withHost ready; modify (put device) : SessionM Unit) := by
  intro s hs
  rcases acquire_cases hready put s with ⟨device, hresult, -, hdone⟩ | ⟨e, -, hdone⟩
  · rw [left_of_ok hdone]
    refine ⟨?_, hput device _ hresult (hI s _ hs)⟩
    show Host.Grew _ s.host (put device _).host
    rw [hhost]
    exact .of_tell hwanted
  · rw [left_of_error hdone]
    exact ⟨.of_tell fun c hc => hwanted c (Host.through_subset _ _ c hc), hI s _ hs⟩

end Session
end Chip8
