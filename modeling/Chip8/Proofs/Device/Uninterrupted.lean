import Chip8.Proofs.Device.Exchange
import Chip8.Proofs.Host.Devices

/-!
# Schedules without interruption

Between two turns of the main loop the reader takes what was typed, and then the queue
is drained, one after the other. Those are schedules among the others: characters typed
with nothing between them do what `Keyboard.feed` does, and the turns of one call with
nothing between them do what `Keyboard.poll` does. So the keyboard of a terminal that is
in use is always one that some schedule leaves, and what holds under every schedule holds
of it: a request to end is not lost.
-/
namespace Chip8
namespace Exchange

variable {l : KeyLayout} {x : Exchange} {k : Keyboard}

/-- The reader takes characters, and looks before each whether it was told to end. -/
def taking : List Int → List Act
  | [] => [.leave]
  | code :: codes => .leave :: .type code :: taking codes

theorem act_leave_of_not_reading (h : x.keyboard.reader ≠ .reading) : x.act l .leave = x := by
  simp [act, h]

theorem act_type_of_not_reading (h : x.keyboard.reader ≠ .reading) (code : Int) :
    x.act l (.type code) = x := by
  simp [act, h]

theorem after_taking_of_not_reading (h : x.keyboard.reader ≠ .reading) (codes : List Int) :
    x.after l (taking codes) = x := by
  induction codes with
  | nil => simp [taking, act_leave_of_not_reading h]
  | cons code codes ih =>
      simp [taking, act_leave_of_not_reading h, act_type_of_not_reading h, ih]

theorem keyboard_after_taking (codes : List Int) (x : Exchange) :
    (x.after l (taking codes)).keyboard = (x.keyboard.run l codes).2 := by
  induction codes generalizing x with
  | nil =>
      cases hreader : x.keyboard.reader with
      | reading =>
          cases hdismissed : x.keyboard.dismissed <;>
            simp [taking, act, reads, Keyboard.run, hreader, hdismissed]
      | delivering => simp [taking, act, Keyboard.run, hreader]
      | ended => simp [taking, act, Keyboard.run, hreader]
  | cons code codes ih =>
      rw [taking, after_cons, after_cons]
      by_cases hreading : x.keyboard.reader = .reading
      case neg =>
        rw [act_leave_of_not_reading hreading, act_type_of_not_reading hreading,
          after_taking_of_not_reading hreading]
        cases hreader : x.keyboard.reader <;> simp_all [Keyboard.run]
      cases hdismissed : x.keyboard.dismissed with
      | true =>
          have hleave : x.act l .leave = x.reads [] { x.keyboard with reader := .ended } := by
            simp [act, hreading, hdismissed]
          rw [hleave, act_type_of_not_reading (by simp [reads]),
            after_taking_of_not_reading (by simp [reads])]
          simp [reads, Keyboard.run, hreading, hdismissed]
      | false =>
          have hleave : x.act l .leave = x := by simp [act, hdismissed]
          rw [hleave]
          cases hfold : Text.lowercase code with
          | error e =>
              have htype : x.act l (.type code) =
                  x.reads [] { x.keyboard with reader := .ended } := by
                simp [act, hreading, hfold]
              rw [htype, after_taking_of_not_reading (by simp [reads])]
              simp [reads, Keyboard.run, hreading, hdismissed, hfold]
          | ok folded =>
              have htype : x.act l (.type code) =
                  x.reads [folded] (x.keyboard.take l folded) := by
                simp [act, hreading, hfold]
              rw [htype, ih]
              simp [reads, Keyboard.run, hreading, hdismissed, hfold]

/-- Characters that are typed without interruption. A reader that waits tries once more. -/
def typing (codes : List Int) : List Act := .deliver :: taking codes

/-- Characters typed without interruption do what `Keyboard.feed` does. -/
theorem keyboard_after_typing (codes : List Int) :
    (x.after l (typing codes)).keyboard = (x.keyboard.feed l codes).2 := by
  rw [typing, after_cons]
  cases hreader : x.keyboard.reader with
  | reading =>
      have hdeliver : x.act l .deliver = x := by simp [act, hreader]
      rw [hdeliver, keyboard_after_taking]
      simp [Keyboard.feed, hreader]
  | ended =>
      have hdeliver : x.act l .deliver = x := by simp [act, hreader]
      rw [hdeliver, after_taking_of_not_reading (by simp [hreader])]
      simp [Keyboard.feed, hreader]
  | delivering =>
      have hdeliver : x.act l .deliver = x.reads [] x.keyboard.deliver := by simp [act, hreader]
      have hgone : x.keyboard.deliver.reader ≠ .reading := by
        unfold Keyboard.deliver
        split <;> simp
      rw [hdeliver, after_taking_of_not_reading hgone]
      simp [Keyboard.feed, hreader, reads]

theorem call_act_type (x : Exchange) (code : Int) : (x.act l (.type code)).call = x.call := by
  simp only [act]
  split
  · split <;> rfl
  · rfl

theorem call_act_leave (x : Exchange) : (x.act l .leave).call = x.call := by
  simp only [act]
  split <;> rfl

theorem call_act_deliver (x : Exchange) : (x.act l .deliver).call = x.call := by
  simp only [act]
  split <;> rfl

theorem call_after_taking (codes : List Int) (x : Exchange) :
    (x.after l (taking codes)).call = x.call := by
  induction codes generalizing x with
  | nil => exact call_act_leave (l := l) x
  | cons code codes ih =>
      rw [taking, after_cons, after_cons, ih, call_act_type, call_act_leave]

theorem call_after_typing (codes : List Int) :
    (x.after l (typing codes)).call = x.call := by
  rw [typing, after_cons, call_after_taking, call_act_deliver]

/-- A call that is not interrupted, with enough turns for the entries in the queue. -/
def polling (now : Number) (entries : Nat) : List Act :=
  .call :: List.replicate (entries + 1) (.turn now)

theorem after_turns_of_away (h : x.call = .away) (now : Number) (n : Nat) :
    x.after l (List.replicate n (.turn now)) = x := by
  induction n with
  | zero => rfl
  | succ n ih =>
      have hturn : x.act l (.turn now) = x := by simp [act, h]
      simpa [List.replicate_succ, hturn] using ih

theorem after_turns_of_draining {deadline : Option Binary64} (h : x.call = .draining deadline)
    (now : Number) (n : Nat) :
    x.after l (List.replicate (n + 1) (.turn now)) =
      (x.drained (x.keyboard.takeOff now deadline)).after l (List.replicate n (.turn now)) := by
  simp [List.replicate_succ, act, h]

structure Answered (answer : Except Number.Error Bool) (k : Keyboard) (x x' : Exchange) : Prop where
  keyboard : x'.keyboard = k
  call : x'.call = .away
  answers : x'.answers = x.answers ++ [answer]

variable {now : Number} {time : Binary64}

theorem answered_after_turn {deadline : Option Binary64} {answer : Except Number.Error Bool}
    (h : x.call = .draining deadline)
    (hturn : x.keyboard.takeOff now deadline = (.answers answer, k)) (n : Nat) :
    Answered answer k x (x.after l (List.replicate (n + 1) (.turn now))) := by
  rw [after_turns_of_draining h, hturn, after_turns_of_away rfl]
  exact ⟨rfl, rfl, rfl⟩

/-- A turn that goes on answers nothing, so the call answers what the turns after it do. -/
theorem Answered.of_goesOn {answer : Except Number.Error Bool} {k' : Keyboard} {x' : Exchange}
    (h : Answered answer k' (x.drained (.goesOn time, k)) x') : Answered answer k' x x' where
  keyboard := h.keyboard
  call := h.call
  answers := by simpa [drained, Keyboard.Drained.answer?] using h.answers

theorem answered_after_turns (now : Number) {queue : List Typed}
    (hqueue : x.keyboard.queue = queue) (h : x.call = .draining (some time)) :
    let (quit, rest, heldUntil) := Keyboard.drain time queue x.keyboard.heldUntil
    Answered (.ok quit) { x.keyboard with queue := rest, heldUntil } x
      (x.after l (List.replicate (queue.length + 1) (.turn now))) := by
  induction queue generalizing x with
  | nil =>
      apply answered_after_turn h
      simp only [Keyboard.takeOff, hqueue]
      rw [← hqueue]
  | cons entry queue ih =>
      cases entry with
      | quit =>
          apply answered_after_turn h
          simp [Keyboard.takeOff, hqueue]
      | key key =>
          let k : Keyboard := { x.keyboard with
            queue, heldUntil := x.keyboard.heldUntil.setIfInBounds key time }
          have hturn : x.keyboard.takeOff now (some time) = (.goesOn time, k) := by
            simp [Keyboard.takeOff, hqueue, k]
          rw [List.length_cons, after_turns_of_draining h, hturn]
          have hrest := ih (x := x.drained (.goesOn time, k)) rfl rfl
          exact hrest.of_goesOn

/-- A call that has just begun and is not interrupted answers as `Keyboard.poll` does. -/
theorem answered_after_call (h : x.call = .draining none) (now : Number) :
    Answered (x.keyboard.poll now).1 (x.keyboard.poll now).2 x
      (x.after l (List.replicate (x.keyboard.queue.length + 1) (.turn now))) := by
  cases hqueue : x.keyboard.queue with
  | nil =>
      apply answered_after_turn h
      simp [Keyboard.takeOff, Keyboard.poll, hqueue]
  | cons entry queue =>
      cases entry with
      | quit =>
          apply answered_after_turn h
          simp [Keyboard.takeOff, Keyboard.poll, hqueue]
      | key key =>
          cases htime : now.addFloat Keyboard.holdTime with
          | error e =>
              apply answered_after_turn h
              simp [Keyboard.takeOff, Keyboard.poll, hqueue, htime]
          | ok time =>
              let k : Keyboard := { x.keyboard with
                queue, heldUntil := x.keyboard.heldUntil.setIfInBounds key time }
              have hturn : x.keyboard.takeOff now none = (.goesOn time, k) := by
                simp [Keyboard.takeOff, hqueue, htime, k]
              rw [List.length_cons, after_turns_of_draining h, hturn]
              have hrest := answered_after_turns (l := l) (x := x.drained (.goesOn time, k)) now
                rfl rfl
              simp only [Keyboard.poll, hqueue, htime]
              exact hrest.of_goesOn

/-- A call that is not interrupted does what `Keyboard.poll` does. -/
theorem after_polling (h : x.call = .away) (now : Number) :
    Answered (x.keyboard.poll now).1 (x.keyboard.poll now).2 x
      (x.after l (polling now x.keyboard.queue.length)) := by
  let begun : Exchange := { x with call := .draining none }
  have hcall : x.act l .call = begun := by simp [act, h, begun]
  rw [polling, after_cons, hcall]
  have hbegun := answered_after_call (x := begun) (l := l) rfl now
  exact ⟨hbegun.keyboard, hbegun.call, hbegun.answers⟩

end Exchange

namespace Controls
variable {l : KeyLayout}

open Exchange (fresh)

/-- The controls of a terminal, with the keyboard that some schedule leaves between two calls. -/
def Exchanged (l : KeyLayout) (c : Controls) : Prop :=
  ∃ schedule, (fresh.after l schedule).call = .away ∧
    c = terminal l (fresh.after l schedule).keyboard

theorem Exchanged.feed {keyboard : Keyboard} (h : Exchanged l (terminal l keyboard))
    (codes : List Int) : Exchanged l (terminal l (keyboard.feed l codes).2) := by
  obtain ⟨schedule, haway, heq⟩ := h
  cases heq
  refine ⟨schedule ++ Exchange.typing codes, ?_⟩
  rw [Exchange.after_append, Exchange.keyboard_after_typing, Exchange.call_after_typing]
  exact ⟨haway, rfl⟩

theorem Exchanged.poll {keyboard : Keyboard} (h : Exchanged l (terminal l keyboard))
    (now : Number) : Exchanged l (terminal l (keyboard.poll now).2) := by
  obtain ⟨schedule, haway, heq⟩ := h
  cases heq
  have hanswered := Exchange.after_polling (l := l) haway now
  refine ⟨schedule ++ Exchange.polling now (fresh.after l schedule).keyboard.queue.length, ?_⟩
  rw [Exchange.after_append, hanswered.keyboard]
  exact ⟨hanswered.call, rfl⟩

theorem Exchanged.dismiss {keyboard : Keyboard} (h : Exchanged l (terminal l keyboard)) :
    Exchanged l (terminal l keyboard.dismiss) := by
  obtain ⟨schedule, haway, heq⟩ := h
  cases heq
  refine ⟨schedule ++ [.dismiss], ?_⟩
  rw [Exchange.after_append]
  simp [Exchange.act, haway]

theorem exchanged_acquire (folded : Bool) (layout : String) {keyboard : Keyboard}
    (h : acquire .terminal folded layout = .ok (terminal l keyboard)) :
    Exchanged l (terminal l keyboard) := by
  unfold acquire at h
  cases hparse : KeyLayout.parse true layout with
  | error e => simp [hparse, Except.map] at h
  | ok l =>
      rw [hparse] at h
      cases h
      exact ⟨[], rfl, rfl⟩

/-- The activity leaves a terminal's controls with a keyboard that some schedule leaves. -/
abbrev Exchanges (l : KeyLayout) {α : Type} (x : DeviceM Controls α) : Prop :=
  Keeps (fun s : Attached Controls => Exchanged l s.device) (fun _ => False) x

theorem exchanges_feed (codes : List Int) : Exchanges l (feed codes) := by
  refine keeps_current_bind fun c hc => ?_
  obtain ⟨schedule, haway, rfl⟩ := id hc
  dsimp only
  refine .bind (keeps_adjust fun _ _ => hc.feed codes) fun _ => ?_
  split
  · exact .pure _
  · exact .throw _

theorem exchanges_drain : Exchanges l (do
    match ← current with
    | terminal layout keyboard =>
        let (quit, keyboard) := keyboard.poll (← get).host.now
        adjust fun _ => terminal layout keyboard
        match quit with
        | .ok quit => pure quit
        | .error e => throw (.number e)
    | _ => pure false) := by
  refine keeps_current_bind fun c hc => ?_
  obtain ⟨schedule, haway, rfl⟩ := id hc
  refine .get_bind fun s _ => ?_
  dsimp only
  refine .bind (keeps_adjust fun _ _ => hc.poll s.host.now) fun _ => ?_
  split
  · exact .pure _
  · exact .throw _

/-- A turn of the main loop is a schedule of the reader and the loop. -/
theorem exchanges_poll : Exchanges l poll := by
  refine .bind (keeps_onHost Host.makes_nextTurn) fun turn => ?_
  refine keeps_current_bind fun c hc => ?_
  obtain ⟨schedule, haway, rfl⟩ := id hc
  exact .ite (.bind (exchanges_feed _) fun _ => exchanges_drain) exchanges_drain

theorem exchanges_release : Exchanges l release := by
  refine keeps_adjust fun c hc => ?_
  obtain ⟨schedule, haway, rfl⟩ := id hc
  exact hc.dismiss

end Controls

namespace Exchange

open Keyboard (isQuit)

/-- Whatever the layout and the schedule, the request to end is not lost. A quit code was
read exactly if the marker is waited with, lies in the queue, or has led a call to answer
that the user wants to end. What a terminal's controls do in use is such a schedule: its
characters are typed and its calls are made without interruption. -/
theorem quit_request_kept (l : KeyLayout) (schedule : List Act) :
    let x := fresh.after l schedule
    (x.keyboard.queue.length ≤ 16 ∧
      (x.queued.count .quit ≤ 1 ∧
        ∀ before behind, x.queued = before ++ .quit :: behind → behind = []) ∧
      ((∃ code ∈ x.read, isQuit code = true) ↔
        x.keyboard.reader = .delivering ∨
          x.keyboard.reader = .ended ∧ (.quit ∈ x.keyboard.queue ∨ .ok true ∈ x.answers)) ∧
      (x.keyboard.reader = .delivering → x.keyboard.queue.length < 16 →
        (x.act l .deliver).keyboard.reader = .ended ∧
          (x.act l .deliver).queued = x.queued ++ [.quit]) ∧
      (∀ char code key, x.keyboard.reader = .reading → Text.lowercase char = .ok code →
        isQuit code = false → l.keyOf? code = some key →
          (x.act l (.type char)).queued = x.queued ++ [.key key] ∨
            x.keyboard.queue.length = 16 ∧ (x.act l (.type char)).keyboard = x.keyboard) ∧
      x.queued = x.taken ++ x.keyboard.queue ∧ keysOf x.taken <+: keysOf x.queued) ∧
    (∀ codes, (x.after l (typing codes)).keyboard = (x.keyboard.feed l codes).2 ∧
      (x.after l (typing codes)).call = x.call) ∧
    (x.call = .away → ∀ now,
      Answered (x.keyboard.poll now).1 (x.keyboard.poll now).2 x
        (x.after l (polling now x.keyboard.queue.length))) ∧
    (∀ folded layout keyboard,
      Controls.acquire .terminal folded layout = .ok (.terminal l keyboard) →
        Controls.Exchanged l (.terminal l keyboard)) ∧
    Controls.Exchanges l Controls.poll ∧ Controls.Exchanges l Controls.release := by
  intro x
  have h : x.Sound := sound_fresh.after l schedule
  have hkept : (∃ code ∈ x.read, isQuit code = true) ↔
      x.keyboard.reader = .delivering ∨
        x.keyboard.reader = .ended ∧ (.quit ∈ x.keyboard.queue ∨ .ok true ∈ x.answers) := by
    rw [h.kept, ← h.marker_iff, and_iff_right_of_imp h.ended]
  have hprefix : keysOf x.taken <+: keysOf x.queued := by
    rw [h.account]
    simp [keysOf]
  refine ⟨⟨h.room, h.marker_is_last, hkept, act_deliver_of_room, ?_, h.account, hprefix⟩,
    fun codes => ⟨keyboard_after_typing codes, call_after_typing codes⟩, after_polling,
    fun folded layout keyboard => Controls.exchanged_acquire folded layout,
    Controls.exchanges_poll, Controls.exchanges_release⟩
  intro char code key hreading hfold hquit hkey
  exact act_type_key char h.room hreading hfold hquit hkey

/-- Escape is typed into a full queue, under a layout that has a key for it as well. The
reader waits until the call has made its first turn. -/
example :
    let l : KeyLayout := ⟨[120, 27, 3, 51, 113, 119, 101, 97, 115, 100, 122, 99, 52, 114, 102, 118]⟩
    let full := fresh.after l (List.replicate 16 (.type 120) ++ [.type 27, .call, .deliver])
    let turns : List Act := List.replicate 16 (.turn (.float .zero))
    let x := full.after l (.turn (.float .zero) :: .deliver :: turns)
    full.keyboard.reader = .delivering ∧ full.keyboard.queue = List.replicate 16 (.key 0) ∧
      x.keyboard.reader = .ended ∧ x.taken = List.replicate 16 (.key 0) ++ [.quit] := by
  decide +kernel

end Exchange
end Chip8
