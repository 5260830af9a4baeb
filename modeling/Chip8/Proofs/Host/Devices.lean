import Chip8.Proofs.Host.Activity

/-!
# The calls of the devices

A device that is in use neither opens nor closes anything: it makes service calls
only, and it stays the kind of device that it is. Which calls are made when a device
is made ready and given back is told exactly, up to the first that is refused.
-/
namespace Chip8

/-- Calls by which devices do their work, other than those that open or close something. -/
def HostCall.isService : HostCall → Bool
  | .terminal .acquire | .terminal .release => false
  | .window .acquire | .window .release => false
  | .mixer .acquire | .mixer .release => false
  | .terminal _ | .window _ | .mixer _ => true
  | _ => false

abbrev HostCall.Serves (c : HostCall) : Prop := c.isService = true

namespace Display

def kind (d : Display) : FrontEnd :=
  match d.surface with
  | .null => .null
  | .window _ _ => .window
  | .terminal _ => .terminal

theorem kind_eq_terminal {d : Display} {pad : Pad} (h : d.surface = .terminal pad) :
    d.kind = .terminal := by
  unfold kind
  rw [h]

variable {k : FrontEnd} {α : Type}

/-- The display is of a kind, makes service calls, and stays of that kind. -/
abbrev Works (k : FrontEnd) (x : DeviceM Display α) : Prop :=
  Keeps (fun s : Attached Display => s.device.kind = k) HostCall.Serves x

theorem works_onHost {x : HostM α} (hx : Host.Makes HostCall.Serves x) : Works k (onHost x) :=
  keeps_onHost (J := fun d : Display => d.kind = k) hx

theorem works_perform {c : HostCall} (hc : c.Serves) : Works k (onHost (Host.perform c)) :=
  works_onHost (Host.makes_perform hc)

theorem works_adjust {f : Display → Display} (hf : ∀ d, d.kind = k → (f d).kind = k) :
    Works k (adjust f) :=
  keeps_adjust (J := fun d : Display => d.kind = k) hf

theorem works_current_bind {f : Display → DeviceM Display α}
    (hf : ∀ d, d.kind = k → Works k (f d)) : Works k (current >>= f) :=
  keeps_current_bind (J := fun d : Display => d.kind = k) hf

theorem works_within (check : Except Storage.Error Nat) : Works k (within check) :=
  works_onHost (Host.makes_compute _)

theorem works_showPad : Works k showPad := by
  refine works_current_bind fun d hd => ?_
  cases hsurface : d.surface with
  | null => exact .pure ()
  | window width height => exact .pure ()
  | terminal pad =>
      obtain rfl := (kind_eq_terminal hsurface).symm.trans hd
      refine .bind (works_onHost Host.makes_terminalSize) ?_
      rintro ⟨height, width⟩
      have hshow : Works .terminal
          (if pad.present = true then
            onHost (Host.perform (.terminal (.showPad (height - 1) (width - 1))))
          else throw (.padGone "refresh")) :=
        .ite (works_perform rfl) (.throw _)
      -- Only a terminal whose size has changed is cleared, resized and refreshed first.
      refine .ite (.bind (works_perform rfl) fun _ => .get_bind fun s _ => ?_) hshow
      refine .optional (works_perform rfl) fun _ => ?_
      refine .bind (works_perform rfl) fun _ => ?_
      exact .bind (works_adjust fun _ _ => rfl) fun _ => hshow

theorem serves_of_mem_repaints {width scale : Int} {shown pixels : List Bool} :
    ∀ c ∈ (repaints width scale shown pixels).map HostCall.terminal, c.Serves := by
  intro c hc
  obtain ⟨call, hcall, rfl⟩ := List.mem_map.mp hc
  obtain ⟨⟨⟨before, now⟩, index⟩, -, hwrite⟩ := List.mem_filterMap.mp hcall
  dsimp only at hwrite
  split at hwrite
  · cases hwrite
  · cases hwrite
    rfl

theorem works_draw (pixels : Array Bool) : Works k (draw pixels) := by
  refine works_current_bind fun d hd => .optional (.throw _) fun _ => ?_
  refine .bind (works_adjust fun _ h => h) fun _ => ?_
  cases hsurface : d.surface with
  | null => exact .pure ()
  | window width height =>
      refine .ite (.pure ()) (works_onHost (Host.makes_performAll ?_))
      simp [HostCall.Serves, HostCall.isService]
  | terminal pad =>
      obtain rfl := (kind_eq_terminal hsurface).symm.trans hd
      refine .optional (.throw _) fun _ => ?_
      refine .bind (works_onHost (Host.makes_performAll serves_of_mem_repaints)) fun _ => ?_
      exact .bind (works_adjust fun _ _ => rfl) fun _ => works_showPad

theorem works_setTitle (text : String) : Works k (setTitle text) := by
  refine works_current_bind fun d _ => ?_
  cases d.surface with
  | null => exact .pure ()
  | window width height => exact works_perform rfl
  | terminal pad =>
      exact .ite (.bind (works_within _) fun _ => works_perform rfl) (.pure ())

theorem works_setResolution (width height : Int) : Works k (setResolution width height) := by
  refine works_current_bind fun d hd => ?_
  have hsize : Works k (adjust fun d : Display => { d with width, height }) :=
    works_adjust fun _ h => h
  cases hsurface : d.surface with
  | null => exact hsize
  | window _ _ => exact .bind (works_within _) fun _ => hsize
  | terminal pad =>
      obtain rfl := (kind_eq_terminal hsurface).symm.trans hd
      refine .bind (works_perform rfl) fun _ => .bind (works_adjust fun _ _ => rfl) fun _ => ?_
      refine .bind (works_within _) fun _ => .bind (works_adjust fun _ _ => rfl) fun _ => ?_
      exact hsize

/-- What a display of some scale asks of the host to be made ready. -/
def openingCalls (scale : OptionValue) : FrontEnd → List HostCall
  | .null => []
  | .window =>
      .window .acquire :: .window (.caption programTitle) ::
        match windowSize scale with
        | .ok (width, height) => [.window (.setSize width height)]
        | .error _ => []
  | .terminal =>
      match cellCount scale with
      | .ok count => [
          .terminal .acquire, .terminal (.cursor 0), .terminal .hideTyping,
          .terminal .readCharacters, .terminal (newPad 0 0 count)]
      | .error _ => []

/-- The display that is made ready if no call is refused. -/
def opened (scale : OptionValue) : FrontEnd → Except Failure Display
  | .null => pure (fresh scale .null)
  | .window => (windowSize scale).map fun size => fresh scale (.window size.1 size.2)
  | .terminal =>
      (cellCount scale).map fun count => fresh scale (.terminal ⟨count, true, #[], (-1, -1)⟩)

theorem asks_acquire (kind : FrontEnd) (scale : OptionValue) :
    Host.Asks (openingCalls (chosenScale kind scale) kind) (opened (chosenScale kind scale) kind)
      (acquire kind scale) := by
  unfold acquire
  generalize chosenScale kind scale = scale
  unfold openingCalls opened
  cases kind with
  | null => exact Host.asks_compute (.ok _)
  | window =>
      refine .perform (.perform ?_ _) _
      cases windowSize scale with
      | ok size =>
          rw [Host.compute_ok_bind]
          exact (Host.asks_compute (.ok _)).perform _
      | error e =>
          rw [Host.compute_error_bind]
          exact Host.asks_compute (.error e)
  | terminal =>
      dsimp only
      cases cellCount scale with
      | ok count =>
          rw [Host.compute_ok_bind]
          refine .perform (.perform (.perform (.perform (.perform ?_ _) _) _) _) _
          exact Host.asks_compute (.ok _)
      | error e =>
          rw [Host.compute_error_bind]
          exact Host.asks_compute (.error e)

theorem kind_of_opened {scale : OptionValue} {kind : FrontEnd} {d : Display}
    (h : opened scale kind = .ok d) : d.kind = kind := by
  unfold opened at h
  cases kind with
  | null =>
      cases h
      rfl
  | window =>
      cases hsize : windowSize scale with
      | ok size =>
          rw [hsize] at h
          cases h
          rfl
      | error e =>
          rw [hsize] at h
          cases h
  | terminal =>
      cases hcount : cellCount scale with
      | ok count =>
          rw [hcount] at h
          cases h
          rfl
      | error e =>
          rw [hcount] at h
          cases h

/-- What a display asks of a host to be given back. A terminal that cannot leave the
mode in which it reads and hides characters is never given back. -/
def closingCalls (refuses : HostCall → Bool) : FrontEnd → List HostCall
  | .null => []
  | .window => [.window .release]
  | .terminal =>
      if refuses (.terminal .readLines) then [.terminal .readLines]
      else if refuses (.terminal .showTyping) then [.terminal .readLines, .terminal .showTyping]
      else [
        .terminal .readLines, .terminal .showTyping, .terminal (.cursor 1), .terminal .release]

theorem left_giveBack (h : Host) :
    left (do
      Host.perform (.terminal .readLines)
      Host.perform (.terminal .showTyping)
      Host.attempt (.terminal (.cursor 1))
      Host.perform (.terminal .release)) h =
    h.tell (closingCalls h.refuses .terminal) := by
  unfold closingCalls
  cases hlines : h.refuses (.terminal .readLines) with
  | true => exact left_bind_of_error (Host.perform_of_refused hlines)
  | false =>
      rw [left_bind_of_ok (Host.perform_of_accepted hlines)]
      cases htyping : h.refuses (.terminal .showTyping) with
      | true =>
          exact left_bind_of_error (Host.perform_of_refused (h := h.tell [_]) htyping)
      | false =>
          rw [left_bind_of_ok (Host.perform_of_accepted (h := h.tell [_]) htyping),
            left_bind_of_ok (Host.attempt_apply _ _), Host.left_perform]
          simp only [Host.tell_append]
          rfl

theorem kind_left_release (s : Attached Display) :
    (left release s).device.kind = s.device.kind := by
  unfold release
  rw [left_current_bind]
  cases hsurface : s.device.surface with
  | null => rfl
  | window width height =>
      dsimp only
      rw [left_onHost]
  | terminal pad =>
      dsimp only
      simp only [left_adjust_bind, onHost_bind, left_onHost]
      exact (kind_eq_terminal hsurface).symm

theorem host_left_release (s : Attached Display) :
    (left release s).host = s.host.tell (closingCalls s.host.refuses s.device.kind) := by
  unfold release kind
  rw [left_current_bind]
  cases s.device.surface with
  | null => exact (Host.tell_nil s.host).symm
  | window width height =>
      dsimp only
      rw [left_onHost]
      exact Host.left_perform _ s.host
  | terminal pad =>
      dsimp only
      simp only [left_adjust_bind, onHost_bind, left_onHost]
      exact left_giveBack s.host

end Display

namespace Speaker
variable {k : FrontEnd}

theorem serves_of_mem_edgeCalls {before after : Bool} :
    ∀ c ∈ edgeCalls k before after, c.Serves := by
  cases k <;> cases before <;> cases after <;> simp [edgeCalls, HostCall.Serves, HostCall.isService]

theorem works_gate (on : Bool) :
    Keeps (fun s : Attached Speaker => s.device.kind = k) HostCall.Serves (gate on) := by
  refine keeps_current_bind (J := fun s : Speaker => s.kind = k) fun s _ => ?_
  refine .bind ?_ fun _ => keeps_adjust (J := fun s : Speaker => s.kind = k) fun _ h => h
  exact keeps_onHost (J := fun s : Speaker => s.kind = k)
    (Host.makes_performAll serves_of_mem_edgeCalls)

/-- What a speaker asks of the host to be made ready. -/
def openingCalls : FrontEnd → List HostCall
  | .window => [
      .mixer .configure, .mixer .acquire, .mixer (.waveform squareWave), .mixer (.volume volume)]
  | _ => []

theorem asks_acquire (kind : FrontEnd) :
    Host.Asks (openingCalls kind) (.ok ⟨kind, false⟩) (acquire kind) := by
  unfold acquire openingCalls
  cases kind with
  | window => exact (Host.asks_performAll _).thenPure _
  | null => exact Host.asks_compute (.ok _)
  | terminal => exact Host.asks_compute (.ok _)

/-- What a speaker asks of the host to be given back. A mixer whose sound cannot be
stopped is never given back. -/
def closingCalls (refuses : HostCall → Bool) : FrontEnd → List HostCall
  | .window =>
      if refuses (.mixer .stop) then [.mixer .stop] else [.mixer .stop, .mixer .release]
  | _ => []

theorem kind_left_release (s : Attached Speaker) :
    (left release s).device.kind = s.device.kind := by
  unfold release
  rw [left_current_bind]
  cases hkind : s.device.kind with
  | window =>
      dsimp only
      rw [left_onHost]
      exact hkind
  | null => exact hkind
  | terminal => exact hkind

theorem host_left_release (s : Attached Speaker) :
    (left release s).host = s.host.tell (closingCalls s.host.refuses s.device.kind) := by
  unfold release
  rw [left_current_bind]
  cases s.device.kind with
  | window =>
      dsimp only
      rw [left_onHost]
      refine ((Host.asks_performAll _).left_eq s.host).trans ?_
      unfold closingCalls
      cases hstop : s.host.refuses (.mixer .stop) <;> simp [Host.through, hstop]
  | null => exact (Host.tell_nil s.host).symm
  | terminal => exact (Host.tell_nil s.host).symm

end Speaker

namespace Controls
variable {P : HostCall → Prop}

/-- Controls ask nothing of the host that a transcript shows. -/
abbrev Listens {α : Type} (x : DeviceM Controls α) : Prop :=
  Keeps (fun _ : Attached Controls => True) (fun _ => False) x

theorem listens_adjust (f : Controls → Controls) : Listens (adjust f) :=
  keeps_adjust (J := fun _ => True) fun _ _ => trivial

theorem listens_current_bind {α : Type} {f : Controls → DeviceM Controls α}
    (hf : ∀ c, Listens (f c)) : Listens (current >>= f) :=
  keeps_current_bind (J := fun _ => True) fun c _ => hf c

theorem listens_feed (codes : List Int) : Listens (feed codes) := by
  refine listens_current_bind fun c => ?_
  cases c with
  | terminal layout keyboard =>
      dsimp only
      generalize keyboard.feed layout codes = result
      obtain ⟨fed, keyboard⟩ := result
      refine .bind (listens_adjust _) fun _ => ?_
      cases fed with
      | ok fed => exact .pure fed
      | error e => exact .throw _
  | _ => exact .pure _

theorem listens_poll : Listens poll := by
  refine .bind (keeps_onHost (J := fun _ => True) Host.makes_nextTurn) fun turn => ?_
  refine listens_current_bind fun c => ?_
  cases c with
  | null layout => exact .pure false
  | rehearsed => exact .pure turn.quit
  | window layout => exact .pure _
  | terminal layout keyboard =>
      -- The queue is drained in the same way whether or not the reader was fed first.
      refine .ite (.bind (listens_feed _) fun _ => ?_) ?_
      all_goals
        refine listens_current_bind fun c => ?_
        cases c with
        | terminal layout keyboard =>
            refine .get_bind fun s _ => ?_
            generalize keyboard.poll s.host.now = result
            obtain ⟨quit, keyboard⟩ := result
            refine .bind (listens_adjust _) fun _ => ?_
            cases quit with
            | ok quit => exact .pure quit
            | error e => exact .throw _
        | _ => exact .pure false

theorem listens_release : Listens release := listens_adjust _

end Controls
end Chip8
