import Chip8.Device.Keyboard

/-!
# The reader and the loop

The reader of a terminal and the main loop share nothing but the queue, and either
may act between any two acts of the other. A schedule lists who acts when, and an act
that is not possible at its turn is passed over. What was read, queued, taken off the
queue and answered is written down on the way.

Nothing that the reader adds comes behind the quit marker, because the marker ends
it. The loop takes entries off the other end and answers that the user wants to end
when it takes the marker. So the marker is waited with, lies in the queue or has been
answered, whatever the schedule.

A call of the loop is cut into turns here, one entry each, so that the reader may act
between them.
-/
namespace Chip8

namespace Keyboard

variable {k k' : Keyboard} {codes : List Int} {added removed : List Typed}

theorem deliver_of_full (h : capacity ≤ k.queue.length) :
    k.deliver = { k with reader := .delivering } := by
  simp [deliver, full, h]

theorem deliver_of_room (h : k.queue.length < capacity) :
    k.deliver = { k with queue := k.queue ++ [.quit], reader := .ended } := by
  simp [deliver, full, Nat.not_le.mpr h]

theorem put_of_full {key : Nat} (h : capacity ≤ k.queue.length) : k.put key = k := by
  simp [put, full, h]

theorem put_of_room {key : Nat} (h : k.queue.length < capacity) :
    k.put key = { k with queue := k.queue ++ [.key key] } := by
  simp [put, full, Nat.not_le.mpr h]

/-- The reader has the marker to put: it reads a quit code, or it waits already. -/
def Asked (codes : List Int) (k : Keyboard) : Prop :=
  (∃ code ∈ codes, isQuit code = true) ∨ k.reader = .delivering

/-- What the reader does to the queue when it reads codes: if it has the marker to put, it
adds the marker and ends, or it waits for room. Otherwise it adds keys at most. -/
structure Adds (codes : List Int) (added : List Typed) (k k' : Keyboard) : Prop where
  queue : k'.queue = k.queue ++ added
  room : k.queue.length ≤ capacity → k'.queue.length ≤ capacity
  marker : added = [.quit] ∧ k'.reader = .ended ∧ Asked codes k ∨
    .quit ∉ added ∧ (Asked codes k ↔ k'.reader = .delivering)

theorem exists_adds_deliver (h : Asked codes k) : ∃ added, Adds codes added k k.deliver := by
  by_cases hfull : capacity ≤ k.queue.length
  · rw [deliver_of_full hfull]
    exact ⟨[], by simp, id, .inr (by simp [h])⟩
  · rw [deliver_of_room (Nat.lt_of_not_le hfull)]
    exact ⟨[.quit], rfl, fun _ => by simp; omega, .inl ⟨rfl, rfl, h⟩⟩

theorem exists_adds_put (key : Nat) (hcodes : ∀ code ∈ codes, isQuit code = false)
    (h : k.reader = .reading) : ∃ added, Adds codes added k (k.put key) := by
  have hnot : ¬Asked codes k := by simp_all [Asked]
  by_cases hfull : capacity ≤ k.queue.length
  · rw [put_of_full hfull]
    exact ⟨[], by simp, id, .inr (by simp [hnot, h])⟩
  · rw [put_of_room (Nat.lt_of_not_le hfull)]
    exact ⟨[.key key], rfl, fun _ => by simp; omega, .inr (by simp [hnot, h])⟩

theorem exists_adds_take (l : KeyLayout) (code : Int) (h : k.reader = .reading) :
    ∃ added, Adds [code] added k (k.take l code) := by
  by_cases hquit : isQuit code = true
  · simp only [take, if_pos hquit]
    exact exists_adds_deliver (.inl (by simp [hquit]))
  · simp only [take, if_neg hquit]
    cases l.keyOf? code with
    | none => exact ⟨[], by simp, id, .inr (by simp [Asked, hquit, h])⟩
    | some key => exact exists_adds_put key (by simpa using hquit) h

theorem adds_end (h : k.reader = .reading) : Adds [] [] k { k with reader := .ended } :=
  ⟨by simp, id, .inr (by simp [Asked, h])⟩

inductive Drained where
  | goesOn (deadline : Binary64)
  | answers (answer : Except Number.Error Bool)

/-- One turn of the loop: it takes an entry off the queue, if there is one. The
deadline was found when the first key of the same call was taken. -/
def takeOff (now : Number) (deadline : Option Binary64) (k : Keyboard) : Drained × Keyboard :=
  match k.queue with
  | [] => (.answers (.ok false), k)
  | .quit :: rest => (.answers (.ok true), { k with queue := rest })
  | .key key :: rest =>
      match deadline.elim (now.addFloat holdTime) .ok with
      | .error e => (.answers (.error e), { k with queue := rest })
      | .ok time =>
          (.goesOn time, { k with queue := rest, heldUntil := k.heldUntil.setIfInBounds key time })

/-- The loop takes entries off the front and leaves the reader alone. It answers that the
user wants to end exactly when it takes the marker. -/
structure Removes (removed : List Typed) (k : Keyboard) (outcome : Drained × Keyboard) : Prop where
  queue : k.queue = removed ++ outcome.2.queue
  reader : outcome.2.reader = k.reader
  marker : outcome.1 = .answers (.ok true) ↔ .quit ∈ removed

theorem exists_removes_takeOff (now : Number) (deadline : Option Binary64) (k : Keyboard) :
    ∃ removed, Removes removed k (k.takeOff now deadline) := by
  unfold takeOff
  split
  case h_1 hqueue => exact ⟨[], by simp [hqueue], rfl, by simp⟩
  case h_2 rest hqueue => exact ⟨[.quit], hqueue, rfl, by simp⟩
  case h_3 key rest hqueue =>
    split
    · exact ⟨[.key key], hqueue, rfl, by simp⟩
    · exact ⟨[.key key], hqueue, rfl, by simp⟩

end Keyboard

inductive Call where
  | away
  /-- In a call, with the deadline of the keys that it took. -/
  | draining (deadline : Option Binary64)
  deriving DecidableEq

namespace Keyboard.Drained

def call : Drained → Call
  | goesOn deadline => .draining (some deadline)
  | answers _ => .away

def answer? : Drained → Option (Except Number.Error Bool)
  | goesOn _ => none
  | answers answer => some answer

theorem answer?_eq_some_iff {d : Drained} {answer : Except Number.Error Bool} :
    d.answer? = some answer ↔ d = .answers answer := by
  cases d <;> simp [answer?]

end Keyboard.Drained

/-- A keyboard between its reader and the loop, with what went through it so far. -/
structure Exchange where
  keyboard : Keyboard
  call : Call
  /-- The folded codes that the reader took. -/
  read : List Int
  /-- Everything that was put into the queue. -/
  queued : List Typed
  /-- Everything that was taken off the queue. -/
  taken : List Typed
  /-- The answer of each call that came back. -/
  answers : List (Except Number.Error Bool)

inductive Act where
  /-- The reader takes a character. It may do so after it was told to end, because it
  looks only before it waits for the character. -/
  | type (code : Int)
  /-- The reader tries to put the marker that it waits with. -/
  | deliver
  /-- The reader finds that it was told to end. -/
  | leave
  | dismiss
  /-- The loop begins a call. -/
  | call
  | turn (now : Number)

namespace Exchange

open Keyboard (isQuit capacity)

def fresh : Exchange := ⟨.fresh, .away, [], [], [], []⟩

/-- The reader took codes and left the keyboard in another state. -/
def reads (codes : List Int) (k : Keyboard) (x : Exchange) : Exchange :=
  { x with
    keyboard := k
    read := x.read ++ codes
    queued := x.queued ++ k.queue.drop x.keyboard.queue.length }

def drained (outcome : Keyboard.Drained × Keyboard) (x : Exchange) : Exchange :=
  { x with
    keyboard := outcome.2
    call := outcome.1.call
    taken := x.taken ++ x.keyboard.queue.take (x.keyboard.queue.length - outcome.2.queue.length)
    answers := x.answers ++ outcome.1.answer?.toList }

def act (l : KeyLayout) (x : Exchange) : Act → Exchange
  | .type code =>
      if x.keyboard.reader = .reading then
        match Text.lowercase code with
        | .ok code => x.reads [code] (x.keyboard.take l code)
        | .error _ => x.reads [] { x.keyboard with reader := .ended }
      else x
  | .deliver => if x.keyboard.reader = .delivering then x.reads [] x.keyboard.deliver else x
  | .leave =>
      if x.keyboard.reader = .reading ∧ x.keyboard.dismissed then
        x.reads [] { x.keyboard with reader := .ended }
      else x
  | .dismiss => if x.call = .away then { x with keyboard := x.keyboard.dismiss } else x
  | .call => if x.call = .away then { x with call := .draining none } else x
  | .turn now =>
      match x.call with
      | .away => x
      | .draining deadline => x.drained (x.keyboard.takeOff now deadline)

def after (l : KeyLayout) (x : Exchange) (schedule : List Act) : Exchange :=
  schedule.foldl (act l) x

@[simp] theorem after_nil (l : KeyLayout) (x : Exchange) : x.after l [] = x := rfl

@[simp] theorem after_cons (l : KeyLayout) (x : Exchange) (a : Act) (schedule : List Act) :
    x.after l (a :: schedule) = (x.act l a).after l schedule := rfl

theorem after_append (l : KeyLayout) (x : Exchange) (schedule later : List Act) :
    x.after l (schedule ++ later) = (x.after l schedule).after l later :=
  List.foldl_append

variable {l : KeyLayout} {x : Exchange} {k : Keyboard} {codes : List Int}
  {added removed : List Typed} {outcome : Keyboard.Drained × Keyboard}

theorem queued_reads (h : Keyboard.Adds codes added x.keyboard k) :
    (x.reads codes k).queued = x.queued ++ added := by
  simp [reads, h.queue]

theorem taken_drained (h : Keyboard.Removes removed x.keyboard outcome) :
    (x.drained outcome).taken = x.taken ++ removed := by
  simp [drained, h.queue]

structure Sound (x : Exchange) : Prop where
  room : x.keyboard.queue.length ≤ capacity
  account : x.queued = x.taken ++ x.keyboard.queue
  /-- The marker was not queued, or it was queued last and once. -/
  marked : .quit ∉ x.queued ∨
    ∃ keys, .quit ∉ keys ∧ x.queued = keys ++ [.quit] ∧ x.keyboard.reader = .ended
  kept : (∃ code ∈ x.read, isQuit code = true) ↔
    x.keyboard.reader = .delivering ∨ .quit ∈ x.queued
  answered : .ok true ∈ x.answers ↔ .quit ∈ x.taken

theorem sound_fresh : fresh.Sound :=
  ⟨by simp [fresh, Keyboard.fresh], rfl, .inl (by simp [fresh]),
    by simp [fresh, Keyboard.fresh], by simp [fresh]⟩

namespace Sound

theorem unmarked (h : x.Sound) (hgoing : x.keyboard.reader ≠ .ended) : .quit ∉ x.queued := by
  cases h.marked with
  | inl hnone => exact hnone
  | inr hlast =>
      obtain ⟨_, _, _, hended⟩ := hlast
      exact absurd hended hgoing

theorem ended (h : x.Sound) (hmarked : .quit ∈ x.queued) : x.keyboard.reader = .ended :=
  Decidable.byContradiction fun hgoing => h.unmarked hgoing hmarked

/-- The marker lies in the queue unless it was taken and answered. -/
theorem marker_iff (h : x.Sound) :
    .quit ∈ x.queued ↔ .quit ∈ x.keyboard.queue ∨ .ok true ∈ x.answers := by
  rw [h.account, List.mem_append, h.answered, or_comm]

/-- The marker is queued at most once, and nothing is queued behind it. -/
theorem marker_is_last (h : x.Sound) :
    x.queued.count .quit ≤ 1 ∧
      ∀ before behind, x.queued = before ++ .quit :: behind → behind = [] := by
  cases h.marked with
  | inl hnone =>
      constructor
      · simp [List.count_eq_zero.mpr hnone]
      · intro before behind hsplit
        simp [hsplit] at hnone
  | inr hlast =>
      obtain ⟨keys, hkeys, hqueued, _⟩ := hlast
      constructor
      · simp [hqueued, List.count_eq_zero.mpr hkeys]
      · intro before behind hsplit
        apply Decidable.byContradiction
        intro hbehind
        have hkeys' : keys = before ++ .quit :: behind.dropLast := by
          have hinit := congrArg List.dropLast (hqueued.symm.trans hsplit)
          simpa [List.dropLast_append_of_ne_nil, List.dropLast_cons_of_ne_nil hbehind] using hinit
        simp [hkeys'] at hkeys

/-- While the reader goes on, it has the marker to put if it has read a quit code. -/
theorem asked_iff (h : x.Sound) (hgoing : x.keyboard.reader ≠ .ended) :
    Keyboard.Asked codes x.keyboard ↔ ∃ code ∈ x.read ++ codes, isQuit code = true := by
  have hwaits := h.kept
  simp only [h.unmarked hgoing, or_false] at hwaits
  unfold Keyboard.Asked
  rw [← hwaits, or_comm]
  simp only [List.mem_append, or_and_right, exists_or]

theorem reads (h : x.Sound) (hgoing : x.keyboard.reader ≠ .ended)
    (hadds : Keyboard.Adds codes added x.keyboard k) : (x.reads codes k).Sound where
  room := hadds.room h.room
  account := by
    rw [queued_reads hadds, h.account]
    simp [Exchange.reads, hadds.queue]
  marked := by
    rw [queued_reads hadds]
    cases hadds.marker with
    | inl hlast =>
        obtain ⟨rfl, hended, -⟩ := hlast
        exact .inr ⟨x.queued, h.unmarked hgoing, rfl, hended⟩
    | inr hkeys => exact .inl (by simp [h.unmarked hgoing, hkeys.1])
  kept := by
    rw [queued_reads hadds, List.mem_append]
    simp only [Exchange.reads, h.unmarked hgoing, false_or, ← h.asked_iff hgoing]
    cases hadds.marker with
    | inl hlast => simp [hlast]
    | inr hkeys => simp [hkeys]
  answered := h.answered

theorem drained (h : x.Sound) (hremoves : Keyboard.Removes removed x.keyboard outcome) :
    (x.drained outcome).Sound where
  room := by
    have hlength := congrArg List.length hremoves.queue
    have hroom := h.room
    simp only [List.length_append] at hlength
    simp only [Exchange.drained]
    omega
  account := by
    rw [taken_drained hremoves]
    simp [Exchange.drained, h.account, hremoves.queue]
  marked := by
    simp only [Exchange.drained, hremoves.reader]
    exact h.marked
  kept := by
    simp only [Exchange.drained, hremoves.reader]
    exact h.kept
  answered := by
    rw [taken_drained hremoves, List.mem_append, ← hremoves.marker, ← h.answered]
    simp [Exchange.drained, Keyboard.Drained.answer?_eq_some_iff]

theorem act (h : x.Sound) (l : KeyLayout) (a : Act) : (x.act l a).Sound := by
  cases a with
  | type code =>
      simp only [Exchange.act]
      split
      case isTrue hreading =>
        split
        · obtain ⟨_, hadds⟩ := Keyboard.exists_adds_take l _ hreading
          exact h.reads (by simp [hreading]) hadds
        · exact h.reads (by simp [hreading]) (Keyboard.adds_end hreading)
      case isFalse => exact h
  | deliver =>
      simp only [Exchange.act]
      split
      case isTrue hdelivering =>
        have hasked : Keyboard.Asked [] x.keyboard := .inr hdelivering
        obtain ⟨_, hadds⟩ := Keyboard.exists_adds_deliver hasked
        exact h.reads (by simp [hdelivering]) hadds
      case isFalse => exact h
  | leave =>
      simp only [Exchange.act]
      split
      case isTrue hleaves => exact h.reads (by simp [hleaves.1]) (Keyboard.adds_end hleaves.1)
      case isFalse => exact h
  | dismiss =>
      simp only [Exchange.act]
      split
      · exact ⟨h.room, h.account, h.marked, h.kept, h.answered⟩
      · exact h
  | call =>
      simp only [Exchange.act]
      split
      · exact ⟨h.room, h.account, h.marked, h.kept, h.answered⟩
      · exact h
  | turn now =>
      simp only [Exchange.act]
      split
      · exact h
      · obtain ⟨_, hremoves⟩ := Keyboard.exists_removes_takeOff now _ x.keyboard
        exact h.drained hremoves

theorem after (h : x.Sound) (l : KeyLayout) (schedule : List Act) : (x.after l schedule).Sound := by
  induction schedule generalizing x with
  | nil => exact h
  | cons a schedule ih => exact ih (h.act l a)

end Sound

def keysOf (entries : List Typed) : List Nat :=
  entries.filterMap fun
    | .key k => some k
    | .quit => none

/-- A character that stands for a key is put behind the others, unless the queue is full. -/
theorem act_type_key {code : Int} (char : Int) {key : Nat}
    (hroom : x.keyboard.queue.length ≤ capacity) (hreading : x.keyboard.reader = .reading)
    (hfold : Text.lowercase char = .ok code) (hquit : isQuit code = false)
    (hkey : l.keyOf? code = some key) :
    (x.act l (.type char)).queued = x.queued ++ [.key key] ∨
      x.keyboard.queue.length = capacity ∧ (x.act l (.type char)).keyboard = x.keyboard := by
  have htake : x.keyboard.take l code = x.keyboard.put key := by
    simp [Keyboard.take, hquit, hkey]
  have hact : x.act l (.type char) = x.reads [code] (x.keyboard.put key) := by
    simp [act, hreading, hfold, htake]
  rw [hact]
  by_cases hfull : capacity ≤ x.keyboard.queue.length
  · exact .inr ⟨Nat.le_antisymm hroom hfull, Keyboard.put_of_full hfull⟩
  · left
    simp [reads, Keyboard.put_of_room (Nat.lt_of_not_le hfull)]

/-- The reader puts the marker that it waits with once there is room. -/
theorem act_deliver_of_room (hwaits : x.keyboard.reader = .delivering)
    (hroom : x.keyboard.queue.length < capacity) :
    (x.act l .deliver).keyboard.reader = .ended ∧
      (x.act l .deliver).queued = x.queued ++ [.quit] := by
  simp [act, hwaits, Keyboard.deliver_of_room hroom, reads]

end Exchange
end Chip8
