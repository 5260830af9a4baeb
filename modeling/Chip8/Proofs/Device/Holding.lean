import Chip8.Device.Controls
import Chip8.Proofs.KeyLayout
import Mathlib.Data.List.TakeWhile

/-!
# Keys that count as held

A terminal never tells that a key was let go. The last call that took a key off the queue
decides until when the key counts as held: a while after the time that this call read. Each
such call starts the while anew, also for a key that still counts as held, and a key that no
call took counts as held at no time from zero on.

A call takes everything off the queue, or everything up to a quit marker, in which case it
answers that the user wants to end. What the reader adds between two calls is left open here:
the queue holds any entries when a call begins.
-/
namespace Chip8

theorem Binary64.not_lt_zero_of_le {x : Binary64} (h : zero.le x = true) : x.lt zero = false := by
  cases x with
  | finite q =>
      have hq : 0 ≤ q := of_decide_eq_true h
      exact decide_eq_false (Rat.not_lt.mpr hq)
  | infinite s =>
      have hs : (!s) = true := h
      simpa [lt, zero] using hs
  | nan => rfl

namespace Keyboard

/-! ## One call -/

/-- The entries in front of the quit marker, or all of them if there is none. -/
def front (queue : List Typed) : List Typed := queue.takeWhile (· ≠ .quit)

def behind (queue : List Typed) : List Typed := (queue.dropWhile (· ≠ .quit)).tail

theorem not_quit {keys : List Typed} (h : .quit ∉ keys) :
    ∀ entry ∈ keys, decide (entry ≠ .quit) = true := by
  intro entry hentry
  exact decide_eq_true fun heq => h (heq ▸ hentry)

theorem split_at_quit {keys : List Typed} (h : .quit ∉ keys) (rest : List Typed) :
    front (keys ++ .quit :: rest) = keys ∧ behind (keys ++ .quit :: rest) = rest := by
  unfold front behind
  rw [List.takeWhile_append_of_pos (not_quit h), List.dropWhile_append_of_pos (not_quit h)]
  simp

theorem split_of_no_quit {queue : List Typed} (h : .quit ∉ queue) :
    front queue = queue ∧ behind queue = [] := by
  have hfront : front queue = queue := List.takeWhile_eq_self_iff.mpr (not_quit h)
  have hbehind : queue.dropWhile (· ≠ .quit) = [] := List.dropWhile_eq_nil_iff.mpr (not_quit h)
  exact ⟨hfront, congrArg List.tail hbehind⟩

variable {deadline : Binary64}

theorem drain_answers (queue : List Typed) (held : Vector Binary64 keyCount) :
    (drain deadline queue held).1 = decide (.quit ∈ queue) := by
  induction queue generalizing held with
  | nil => rfl
  | cons entry rest ih =>
      cases entry with
      | quit => simp [drain]
      | key k => simp [drain, ih]

theorem drain_leaves (queue : List Typed) (held : Vector Binary64 keyCount) :
    (drain deadline queue held).2.1 = behind queue := by
  induction queue generalizing held with
  | nil => rfl
  | cons entry rest ih =>
      cases entry with
      | quit => simp [drain, behind]
      | key k =>
          rw [drain, ih]
          simp [behind]

/-- The keys in front of the quit marker count as held until the deadline, and the others as
long as before. -/
theorem drain_marks (queue : List Typed) (held : Vector Binary64 keyCount) {key : Nat}
    (hkey : key < keyCount) :
    (drain deadline queue held).2.2[key] =
      if .key key ∈ front queue then deadline else held[key] := by
  induction queue generalizing held with
  | nil => rfl
  | cons entry rest ih =>
      cases entry with
      | quit => rfl
      | key k =>
          have hfront : front (.key k :: rest) = .key k :: front rest := by simp [front]
          rw [drain, ih, hfront, Vector.getElem_setIfInBounds hkey]
          by_cases hsame : k = key
          · simp [hsame]
          · have hne : key ≠ k := fun heq => hsame heq.symm
            simp [hsame, hne]

/-- A call that can tell the deadline drains the queue, whatever lies in it. -/
theorem poll_eq {now : Number} {time : Binary64} (hnow : now.toBinary64 = .ok time)
    (k : Keyboard) :
    k.poll now =
      (.ok (drain (time.add holdTime) k.queue k.heldUntil).1,
        { k with
          queue := (drain (time.add holdTime) k.queue k.heldUntil).2.1
          heldUntil := (drain (time.add holdTime) k.queue k.heldUntil).2.2 }) := by
  have hadd : now.addFloat holdTime = .ok (time.add holdTime) := by
    unfold Number.addFloat
    rw [hnow]
    rfl
  obtain ⟨queue, reader, dismissed, held⟩ := k
  rcases queue with _ | ⟨_ | _, rest⟩
  · rfl
  · simp only [poll, hadd]
  · rfl

/-- A call that cannot tell the deadline marks no key. -/
theorem heldUntil_poll_of_error {now : Number} {e : Number.Error}
    (hnow : now.toBinary64 = .error e) (k : Keyboard) : (k.poll now).2.heldUntil = k.heldUntil := by
  have hadd : now.addFloat holdTime = .error e := by
    unfold Number.addFloat
    rw [hnow]
    rfl
  obtain ⟨queue, reader, dismissed, held⟩ := k
  rcases queue with _ | ⟨_ | _, rest⟩
  · rfl
  · simp only [poll, hadd]
  · rfl

def withQueue (k : Keyboard) (queue : List Typed) : Keyboard := { k with queue }

/-! ## Any number of calls -/

inductive Request where
  /-- The queue, which holds some entries by then, is drained at a time. -/
  | poll (queue : List Typed) (now : Number)
  /-- It is told which keys count as held at a time. -/
  | states (now : Number)
  deriving DecidableEq

namespace Request

def perform (k : Keyboard) : Request → Keyboard
  | poll queue now => ((k.withQueue queue).poll now).2
  | states _ => k

/-- The time that is read by a call that takes a key off the queue. -/
def takenAt? (key : Nat) : Request → Option Binary64
  | poll queue now => if .key key ∈ front queue then now.toBinary64.toOption else none
  | states _ => none

end Request

def after (k : Keyboard) (requests : List Request) : Keyboard :=
  requests.foldl Request.perform k

/-- The time that is read by the last call that takes a key off the queue. -/
def lastTaken? (key : Nat) (requests : List Request) : Option Binary64 :=
  requests.reverse.findSome? (·.takenAt? key)

theorem lastTaken?_cons (key : Nat) (r : Request) (requests : List Request) :
    lastTaken? key (r :: requests) = (lastTaken? key requests).or (r.takenAt? key) := by
  simp [lastTaken?, List.findSome?_append]

theorem heldUntil_perform (k : Keyboard) (r : Request) {key : Nat} (hkey : key < keyCount) :
    (r.perform k).heldUntil[key] =
      ((r.takenAt? key).map (·.add holdTime)).getD k.heldUntil[key] := by
  cases r with
  | states now => rfl
  | poll queue now =>
      unfold Request.perform Request.takenAt?
      dsimp only
      cases hnow : now.toBinary64 with
      | error e =>
          rw [heldUntil_poll_of_error hnow]
          split <;> rfl
      | ok time =>
          rw [poll_eq hnow, drain_marks _ _ hkey]
          by_cases htaken : .key key ∈ front queue
          · simp [withQueue, htaken, Except.toOption]
          · simp [withQueue, htaken]

theorem heldUntil_after (k : Keyboard) (requests : List Request) {key : Nat}
    (hkey : key < keyCount) :
    (k.after requests).heldUntil[key] =
      ((lastTaken? key requests).map (·.add holdTime)).getD k.heldUntil[key] := by
  induction requests generalizing k with
  | nil => rfl
  | cons r requests ih =>
      show ((r.perform k).after requests).heldUntil[key] = _
      rw [ih, heldUntil_perform k r hkey, lastTaken?_cons]
      cases lastTaken? key requests <;> rfl

theorem getElem?_states (k : Keyboard) (now : Number) {key : Nat} (hkey : key < keyCount) :
    (k.states now)[key]? = some (now.lt (.float k.heldUntil[key])) := by
  simp [states, hkey]

end Keyboard

namespace Controls
variable {folded : Bool} {text : String} {l : KeyLayout} {keyboard : Keyboard}

open Keyboard (Request lastTaken? front holdTime)

theorem acquire_terminal_eq_ok
    (h : acquire .terminal folded text = .ok (terminal l keyboard)) : keyboard = .fresh := by
  unfold acquire at h
  cases hparse : KeyLayout.parse true text with
  | error e => simp [hparse, Except.map] at h
  | ok l' =>
      simp [hparse, Except.map] at h
      exact h.2.symm

/-- A key counts as held exactly if the last call that took it off the queue did so not too
long ago. -/
theorem held_keys_follow_queue
    (hacquired : acquire .terminal folded text = .ok (terminal l keyboard))
    (requests : List Request) :
    (∀ (host : Host) (key : Nat), key < 16 → Number.le (.float .zero) host.now = true →
      (((terminal l (keyboard.after requests)).states host)[key]? = some true ↔
        ∃ time, lastTaken? key requests = some time ∧
          host.now.lt (.float (time.add holdTime)) = true)) ∧
    ∀ (queue : List Typed) (now : Number) (time : Binary64), now.toBinary64 = .ok time →
      let call := ((keyboard.after requests).withQueue queue).poll now
      ∃ answer, call.1 = .ok answer ∧ (answer = true ↔ .quit ∈ queue) ∧
        (∀ keys rest, .quit ∉ keys → queue = keys ++ .quit :: rest →
          front queue = keys ∧ call.2.queue = rest) ∧
        (.quit ∉ queue → front queue = queue ∧ call.2.queue = []) := by
  constructor
  · intro host key hkey hnonneg
    obtain rfl := acquire_terminal_eq_ok hacquired
    have hnever : host.now.lt (.float .zero) = false := Binary64.not_lt_zero_of_le hnonneg
    rw [states, Keyboard.getElem?_states _ _ hkey, Keyboard.heldUntil_after _ _ hkey]
    cases lastTaken? key requests with
    | none => simp [Keyboard.fresh, hnever]
    | some time => simp
  · intro queue now time hnow call
    have hcall : call = _ := Keyboard.poll_eq hnow _
    rw [hcall, Keyboard.drain_answers, Keyboard.drain_leaves]
    refine ⟨decide (.quit ∈ queue), rfl, decide_eq_true_iff, ?_, Keyboard.split_of_no_quit⟩
    rintro keys rest hkeys rfl
    exact Keyboard.split_at_quit hkeys rest

/-- Key 3 is typed twice, then the program is to end, and key 5 is typed behind that. -/
def someRequests : List Request :=
  [.poll [.key 3, .key 3, .quit, .key 5] (.float (.finite 1)), .states (.int 1)]

theorem key_is_held_for_a_while :
    let l : KeyLayout :=
      ⟨[120, 49, 50, 51, 113, 119, 101, 97, 115, 100, 122, 99, 52, 114, 102, 118]⟩
    let c := terminal l (Keyboard.fresh.after someRequests)
    let soon := { Host.quiet with now := .float (.finite (9 / 8)) }
    let later := { Host.quiet with now := .float (.finite (5 / 4)) }
    acquire .terminal false KeyLayout.standard = .ok (terminal l .fresh) ∧
      (c.states soon)[3]? = some true ∧ ¬ (c.states soon)[5]? = some true ∧
      ¬ (c.states later)[3]? = some true := by
  intro l c soon later
  have hacquired : acquire .terminal false KeyLayout.standard = .ok (terminal l .fresh) := by
    decide +kernel
  obtain ⟨hheld, -⟩ := held_keys_follow_queue hacquired someRequests
  have hthree : lastTaken? 3 someRequests = some (.finite 1) := by decide +kernel
  have hfive : lastTaken? 5 someRequests = none := by decide +kernel
  refine ⟨hacquired, ?_, ?_, ?_⟩
  · rw [hheld soon 3 (by decide) (by decide +kernel), hthree]
    exact ⟨.finite 1, rfl, by decide +kernel⟩
  · rw [hheld soon 5 (by decide) (by decide +kernel), hfive]
    rintro ⟨time, ⟨⟩, -⟩
  · rw [hheld later 3 (by decide) (by decide +kernel), hthree]
    rintro ⟨time, ⟨rfl⟩, hlt⟩
    revert hlt
    decide +kernel

end Controls
end Chip8
