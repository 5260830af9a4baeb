import Chip8.Proofs.Startup.Stages

/-!
# What is opened and what is closed

The launch guards devices that are ready. A device becomes ready only some calls after its
facility was opened on the host, and it is given back by several calls of which the last
closes the facility. So a facility that was opened is closed exactly if no call in between
is refused that belongs to making the device ready or to giving it back. What the loop
does, and whether it fails, does not matter.
-/
namespace Chip8

def Event.call? : Event → Option HostCall
  | .call c => some c
  | _ => none

def callsOf (log : List Event) : List HostCall := log.filterMap Event.call?

theorem callsOf_append (log log' : List Event) :
    callsOf (log ++ log') = callsOf log ++ callsOf log' :=
  List.filterMap_append

theorem callsOf_map_call (made : List HostCall) : callsOf (made.map Event.call) = made := by
  unfold callsOf
  rw [List.filterMap_map]
  exact List.filterMap_some

theorem callsOf_stageLog (stage : Stage) (made : List HostCall) (failure : Option Failure) :
    callsOf (stageLog stage made failure) = made := by
  have hsplit : stageLog stage made failure =
      [Event.begun stage] ++ (made.map Event.call ++ [.ended stage failure]) := rfl
  rw [hsplit, callsOf_append, callsOf_append, callsOf_map_call]
  exact List.append_nil made

/-- What is opened on the host and has to be closed again. -/
inductive Facility where
  | terminal
  | window
  | mixer
  deriving Repr, DecidableEq

namespace Facility

def opening : Facility → HostCall
  | terminal => .terminal .acquire
  | window => .window .acquire
  | mixer => .mixer .acquire

def closing : Facility → HostCall
  | terminal => .terminal .release
  | window => .window .release
  | mixer => .mixer .release

def touches (f : Facility) (c : HostCall) : Bool := c == f.opening || c == f.closing

/-- The calls after the opening without which the closing is not reached. There are none if
the scale is of no use. -/
def between (scale : OptionValue) : Facility → Except Failure (List HostCall)
  | terminal => (Display.cellCount (Display.chosenScale .terminal scale)).map fun count => [
      .terminal (.cursor 0), .terminal .hideTyping, .terminal .readCharacters,
      .terminal (Display.newPad 0 0 count), .terminal .readLines, .terminal .showTyping]
  | window => (Display.windowSize (Display.chosenScale .window scale)).map fun size => [
      .window (.caption programTitle), .window (.setSize size.1 size.2)]
  | mixer => .ok [
      .mixer (.waveform Speaker.squareWave), .mixer (.volume Speaker.volume), .mixer .stop]

/-- Whether the closing is reached once the facility is open. -/
def Lasts (f : Facility) (refuses : HostCall → Bool) (scale : OptionValue) : Prop :=
  ∃ calls, f.between scale = .ok calls ∧ ∀ c ∈ calls, refuses c = false

/-- Some calls open the facility at most once, and close it afterwards exactly if it lasts. -/
def Settled (f : Facility) (refuses : HostCall → Bool) (scale : OptionValue)
    (made : List HostCall) : Prop :=
  made.filter f.touches = [] ∨
    made.filter f.touches = [f.opening, f.closing] ∧ f.Lasts refuses scale ∨
    made.filter f.touches = [f.opening] ∧ ¬f.Lasts refuses scale

variable {f : Facility} {refuses : HostCall → Bool} {scale : OptionValue}
  {made made' : List HostCall}

theorem eq_of_touches {c : HostCall} (h : f.touches c = true) : c = f.opening ∨ c = f.closing := by
  simpa [touches] using h

theorem touches_of_routine {c : HostCall} (h : c.Routine) : f.touches c = false := by
  refine Bool.eq_false_iff.mpr fun htouches => ?_
  rcases eq_of_touches htouches with rfl | rfl <;> cases f <;> cases h

def ofCall : HostCall → Option Facility
  | .terminal _ => some terminal
  | .window _ => some window
  | .mixer _ => some mixer
  | _ => none

theorem touches_of_ofCall_ne {c : HostCall} (h : ofCall c ≠ some f) : f.touches c = false := by
  refine Bool.eq_false_iff.mpr fun htouches => h ?_
  rcases eq_of_touches htouches with rfl | rfl <;> cases f <;> rfl

theorem filter_eq_nil (h : ∀ c ∈ made, f.touches c = false) : made.filter f.touches = [] :=
  List.filter_eq_nil_iff.mpr fun c hc => by simp [h c hc]

theorem Settled.congr (h : made.filter f.touches = made'.filter f.touches)
    (hsettled : f.Settled refuses scale made) : f.Settled refuses scale made' := by
  unfold Settled at hsettled ⊢
  rwa [h] at hsettled

theorem not_lasts_of_refused {calls : List HostCall} (hbetween : f.between scale = .ok calls)
    (hrefused : ∃ c ∈ calls, refuses c = true) : ¬f.Lasts refuses scale := by
  rintro ⟨calls', hbetween', haccepted⟩
  obtain ⟨c, hc, hrefused⟩ := hrefused
  obtain rfl := Except.ok.inj (hbetween.symm.trans hbetween')
  rw [haccepted c hc] at hrefused
  cases hrefused

/-- Whatever follows an opening closes the facility exactly if it lasts. -/
theorem Settled.closing_mem_iff {before after : List HostCall}
    (h : f.Settled refuses scale (before ++ f.opening :: after)) :
    f.closing ∈ after ↔ f.Lasts refuses scale := by
  have hopening : f.touches f.opening = true := by simp [touches]
  have hclosing : f.touches f.closing = true := by simp [touches]
  have hmem : f.closing ∈ after ↔ f.closing ∈ after.filter f.touches := by simp [hclosing]
  have hsplit : (before ++ f.opening :: after).filter f.touches =
      before.filter f.touches ++ f.opening :: after.filter f.touches := by
    rw [List.filter_append, List.filter_cons_of_pos hopening]
  unfold Settled at h
  rw [hsplit] at h
  rcases h with hnone | ⟨hboth, hlasts⟩ | ⟨hone, hlasts⟩
  · simp at hnone
  · cases hbefore : before.filter f.touches with
    | nil =>
        rw [hbefore] at hboth
        have hafter : after.filter f.touches = [f.closing] := by simpa using hboth
        simp [hmem, hafter, hlasts]
    | cons c rest =>
        rw [hbefore] at hboth
        have hlater : rest ++ f.opening :: after.filter f.touches = [f.closing] :=
          (List.cons.inj hboth).2
        cases rest with
        | nil => cases f <;> cases (List.cons.inj hlater).1
        | cons d rest => simp at hlater
  · cases hbefore : before.filter f.touches with
    | nil =>
        rw [hbefore] at hone
        have hafter : after.filter f.touches = [] := by simpa using hone
        simp [hmem, hafter, hlasts]
    | cons c rest =>
        rw [hbefore] at hone
        simp at hone

/-- The facility is opened, and the device does not become ready. -/
theorem settled_of_stopped {rest : List HostCall} (hopening : refuses f.opening = false)
    (hrest : ∀ c ∈ rest, f.touches c = false) (hlasts : ¬f.Lasts refuses scale) :
    f.Settled refuses scale (Host.through refuses (f.opening :: rest)) := by
  refine .inr (.inr ⟨?_, hlasts⟩)
  have htouches : f.touches f.opening = true := by simp [touches]
  have hthrough : (Host.through refuses rest).filter f.touches = [] :=
    filter_eq_nil fun c hc => hrest c (Host.through_subset refuses rest c hc)
  rw [Host.through, hopening, if_neg Bool.false_ne_true, List.filter_cons_of_pos htouches, hthrough]

theorem settled_of_closed (hmade : made.filter f.touches = [f.opening])
    (hmade' : made'.filter f.touches = [f.closing]) (hlasts : f.Lasts refuses scale) :
    f.Settled refuses scale (made ++ made') :=
  .inr (.inl ⟨by rw [List.filter_append, hmade, hmade', List.singleton_append], hlasts⟩)

theorem settled_of_left_open (hmade : made.filter f.touches = [f.opening])
    (hmade' : made'.filter f.touches = []) (hlasts : ¬f.Lasts refuses scale) :
    f.Settled refuses scale (made ++ made') :=
  .inr (.inr ⟨by rw [List.filter_append, hmade, hmade', List.append_nil], hlasts⟩)

structure Belongs (f : Facility) (scale : OptionValue) {δ : Type} (wanted : List HostCall)
    (result : Except Failure δ) (closingCalls : (HostCall → Bool) → List HostCall) : Prop where
  opens : ∀ device, result = .ok device → wanted.filter f.touches = [f.opening]
  failed : ∀ refuses : HostCall → Bool, refuses f.opening = false →
    ((∃ c ∈ wanted, refuses c = true) ∨ ∃ e, result = .error e) →
    f.Settled refuses scale (Host.through refuses wanted)
  givenBack : ∀ (refuses : HostCall → Bool) (device : δ) (made : List HostCall),
    result = .ok device → (∀ c ∈ wanted, refuses c = false) →
    made.filter f.touches = [f.opening] → f.Settled refuses scale (made ++ closingCalls refuses)

theorem map_error_ne_ok {α β : Type} (g : α → β) (e : Failure) (b : β) :
    Except.map g (.error e) ≠ .ok b := by
  intro h
  cases h

theorem belongs_window (scale : OptionValue) :
    Belongs .window scale (Display.openingCalls (Display.chosenScale .window scale) .window)
      (Display.opened (Display.chosenScale .window scale) .window)
      fun refuses => Display.closingCalls refuses .window := by
  cases hsize : Display.windowSize (Display.chosenScale .window scale) with
  | error e =>
      simp only [Display.openingCalls, Display.opened, hsize]
      have hlasts (refuses : HostCall → Bool) : ¬window.Lasts refuses scale := by
        rintro ⟨calls, hcalls, -⟩
        rw [between, hsize] at hcalls
        cases hcalls
      refine ⟨fun device hdevice => absurd hdevice (map_error_ne_ok _ e device),
        fun refuses hopening _ => ?_,
        fun refuses device made hdevice => absurd hdevice (map_error_ne_ok _ e device)⟩
      exact settled_of_stopped hopening (by decide) (hlasts refuses)
  | ok size =>
      simp only [Display.openingCalls, Display.opened, hsize]
      have hbetween : between scale .window = .ok [.window (.caption programTitle),
          .window (.setSize size.1 size.2)] := by
        rw [between, hsize]
        rfl
      refine ⟨fun _ _ => by simp [touches, opening, closing], ?_, ?_⟩
      · intro refuses hopening hfailed
        refine settled_of_stopped hopening (by simp [touches, opening, closing]) ?_
        refine not_lasts_of_refused hbetween ?_
        rw [opening] at hopening
        rcases hfailed with hrefused | ⟨e, he⟩
        · simpa [hopening] using hrefused
        · cases he
      · intro refuses device made _ haccepted hmade
        refine settled_of_closed hmade rfl ⟨_, hbetween, fun c hc => haccepted c ?_⟩
        exact .tail _ hc

theorem belongs_terminal (scale : OptionValue) :
    Belongs .terminal scale (Display.openingCalls (Display.chosenScale .terminal scale) .terminal)
      (Display.opened (Display.chosenScale .terminal scale) .terminal)
      fun refuses => Display.closingCalls refuses .terminal := by
  cases hcount : Display.cellCount (Display.chosenScale .terminal scale) with
  | error e =>
      simp only [Display.openingCalls, Display.opened, hcount]
      exact ⟨fun device hdevice => absurd hdevice (map_error_ne_ok _ e device),
        fun _ _ _ => .inl rfl,
        fun refuses device made hdevice => absurd hdevice (map_error_ne_ok _ e device)⟩
  | ok count =>
      simp only [Display.openingCalls, Display.opened, hcount]
      have hbetween : between scale .terminal = .ok [
          .terminal (.cursor 0), .terminal .hideTyping, .terminal .readCharacters,
          .terminal (Display.newPad 0 0 count), .terminal .readLines, .terminal .showTyping] := by
        rw [between, hcount]
        rfl
      refine ⟨fun _ _ => by simp [touches, opening, closing, Display.newPad], ?_, ?_⟩
      · intro refuses hopening hfailed
        refine settled_of_stopped hopening (by simp [touches, opening, closing, Display.newPad]) ?_
        refine not_lasts_of_refused hbetween ?_
        rw [opening] at hopening
        rcases hfailed with ⟨c, hc, hrefused⟩ | ⟨e, he⟩
        · refine ⟨c, ?_, hrefused⟩
          rcases List.mem_cons.mp hc with rfl | hc
          · simp [hopening] at hrefused
          · exact List.mem_append_left [HostCall.terminal .readLines, .terminal .showTyping] hc
        · cases he
      · intro refuses device made _ haccepted hmade
        unfold Display.closingCalls
        cases hlines : refuses (.terminal .readLines) with
        | true =>
            refine settled_of_left_open hmade rfl (not_lasts_of_refused hbetween ?_)
            exact ⟨_, by simp, hlines⟩
        | false =>
            cases htyping : refuses (.terminal .showTyping) with
            | true =>
                refine settled_of_left_open hmade rfl (not_lasts_of_refused hbetween ?_)
                exact ⟨_, by simp, htyping⟩
            | false =>
                refine settled_of_closed hmade rfl ⟨_, hbetween, ?_⟩
                simpa [hlines, htyping] using (List.forall_mem_cons.mp haccepted).2

theorem belongs_mixer (scale : OptionValue) :
    Belongs .mixer scale (Speaker.openingCalls .window) (.ok (⟨.window, false⟩ : Speaker))
      fun refuses => Speaker.closingCalls refuses .window := by
  have hbetween : between scale .mixer = .ok [
      .mixer (.waveform Speaker.squareWave), .mixer (.volume Speaker.volume), .mixer .stop] := rfl
  refine ⟨fun _ _ => by simp [Speaker.openingCalls, touches, opening, closing], ?_, ?_⟩
  · intro refuses hopening hfailed
    rw [Speaker.openingCalls, Host.through]
    cases hconfigure : refuses (.mixer .configure) with
    | true => exact .inl rfl
    | false =>
        have hrefused : ∃ c ∈ [HostCall.mixer (.waveform Speaker.squareWave),
            .mixer (.volume Speaker.volume)], refuses c = true := by
          rw [opening] at hopening
          rcases hfailed with hrefused | ⟨e, he⟩
          · simpa [Speaker.openingCalls, hconfigure, hopening] using hrefused
          · cases he
        have hlasts : ¬mixer.Lasts refuses scale := by
          refine not_lasts_of_refused hbetween ?_
          obtain ⟨c, hc, hrefused⟩ := hrefused
          exact ⟨c, List.mem_append_left [HostCall.mixer .stop] hc, hrefused⟩
        exact (settled_of_stopped hopening (by simp [touches, opening, closing]) hlasts).congr rfl
  · intro refuses device made _ haccepted hmade
    unfold Speaker.closingCalls
    cases hstop : refuses (.mixer .stop) with
    | true =>
        refine settled_of_left_open hmade rfl (not_lasts_of_refused hbetween ?_)
        exact ⟨_, by simp, hstop⟩
    | false =>
        refine settled_of_closed hmade rfl ⟨_, hbetween, ?_⟩
        obtain ⟨-, -, hready⟩ : _ ∧ _ ∧ _ := by
          simpa only [Speaker.openingCalls, List.forall_mem_cons] using haccepted
        simpa only [List.forall_mem_cons, hstop, true_and] using hready

section Devices

def ofDisplay : FrontEnd → Option Facility
  | .window => some window
  | .terminal => some terminal
  | .null => none

def ofSpeaker : FrontEnd → Option Facility
  | .window => some mixer
  | _ => none

variable {kind : FrontEnd}

theorem ofDisplay_ne_mixer : ofDisplay kind ≠ some mixer := by
  cases kind <;> simp [ofDisplay]

theorem eq_mixer_of_ofSpeaker (h : ofSpeaker kind = some f) : f = mixer := by
  cases kind with
  | window => exact (Option.some.inj h).symm
  | terminal => cases h
  | null => cases h

theorem belongs_display (h : ofDisplay kind = some f) :
    Belongs f scale (Display.openingCalls (Display.chosenScale kind scale) kind)
      (Display.opened (Display.chosenScale kind scale) kind)
      fun refuses => Display.closingCalls refuses kind := by
  cases kind with
  | window =>
      cases h
      exact belongs_window scale
  | terminal =>
      cases h
      exact belongs_terminal scale
  | null => cases h

theorem belongs_speaker (h : ofSpeaker kind = some f) :
    Belongs f scale (Speaker.openingCalls kind) (.ok (⟨kind, false⟩ : Speaker))
      fun refuses => Speaker.closingCalls refuses kind := by
  cases kind with
  | window =>
      cases h
      exact belongs_mixer scale
  | terminal => cases h
  | null => cases h

theorem ofCall_of_mem_display (kind : FrontEnd) :
    (∀ scale, ∀ c ∈ Display.openingCalls scale kind, ofCall c = ofDisplay kind) ∧
      ∀ refuses, ∀ c ∈ Display.closingCalls refuses kind, ofCall c = ofDisplay kind := by
  unfold Display.openingCalls Display.closingCalls
  cases kind with
  | null => simp
  | window =>
      refine ⟨fun scale => ?_, fun refuses => by simp [ofCall, ofDisplay]⟩
      cases Display.windowSize scale <;> simp [ofCall, ofDisplay]
  | terminal =>
      refine ⟨fun scale => ?_, fun refuses => ?_⟩
      · cases Display.cellCount scale <;> simp [ofCall, ofDisplay]
      · cases refuses (.terminal .readLines) <;> cases refuses (.terminal .showTyping) <;>
          simp [ofCall, ofDisplay]

theorem ofCall_of_mem_speaker (kind : FrontEnd) :
    (∀ c ∈ Speaker.openingCalls kind, ofCall c = ofSpeaker kind) ∧
      ∀ refuses, ∀ c ∈ Speaker.closingCalls refuses kind, ofCall c = ofSpeaker kind := by
  unfold Speaker.openingCalls Speaker.closingCalls
  cases kind with
  | null => simp
  | terminal => simp
  | window =>
      refine ⟨by simp [ofCall, ofSpeaker], fun refuses => ?_⟩
      cases refuses (.mixer .stop) <;> simp [ofCall, ofSpeaker]

theorem touches_of_mem_display (h : ofDisplay kind ≠ some f) :
    (∀ scale, ∀ c ∈ Display.openingCalls scale kind, f.touches c = false) ∧
      ∀ refuses, ∀ c ∈ Display.closingCalls refuses kind, f.touches c = false := by
  obtain ⟨hopening, hclosing⟩ := ofCall_of_mem_display kind
  exact ⟨fun scale c hc => touches_of_ofCall_ne (hopening scale c hc ▸ h),
    fun refuses c hc => touches_of_ofCall_ne (hclosing refuses c hc ▸ h)⟩

theorem touches_of_mem_speaker (h : ofSpeaker kind ≠ some f) :
    (∀ c ∈ Speaker.openingCalls kind, f.touches c = false) ∧
      ∀ refuses, ∀ c ∈ Speaker.closingCalls refuses kind, f.touches c = false := by
  obtain ⟨hopening, hclosing⟩ := ofCall_of_mem_speaker kind
  exact ⟨fun c hc => touches_of_ofCall_ne (hopening c hc ▸ h),
    fun refuses c hc => touches_of_ofCall_ne (hclosing refuses c hc ▸ h)⟩

end Devices

end Facility
end Chip8
