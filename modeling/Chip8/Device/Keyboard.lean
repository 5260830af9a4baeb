import Chip8.KeyLayout
import Chip8.Number.Basic

/-!
# Terminal keyboards

A terminal reports characters, never keys going down or up. A reader takes the
characters one by one, folds them, and puts the keys they stand for into a queue
of sixteen places; a key that finds no room is lost. Escape and Ctrl+C put a
quit marker into the queue, which waits until there is room, and end the reader.
The main loop drains the queue once a turn, and takes a key to be held for a
short time after it was last seen.
-/
namespace Chip8

inductive Typed where
  | key (k : Nat)
  | quit
  deriving Repr, DecidableEq

inductive Reader where
  /-- Waits for a character. -/
  | reading
  /-- Waits for room to put the quit marker. -/
  | delivering
  | ended
  deriving Repr, DecidableEq

structure Keyboard where
  queue : List Typed
  reader : Reader
  /-- The reader has been told to end before it takes another character. -/
  dismissed : Bool
  /-- For each key, the time until which it counts as held. -/
  heldUntil : Vector Binary64 keyCount
  deriving DecidableEq

namespace Keyboard

def capacity : Nat := 16

/-- How long a key counts as held, in seconds. -/
def holdTime : Binary64 := Binary64.round (1 / 5)

def fresh : Keyboard := ⟨[], .reading, false, Vector.replicate keyCount .zero⟩

def full (k : Keyboard) : Bool := capacity ≤ k.queue.length

/-- Puts the quit marker as soon as there is room, which ends the reader. -/
def deliver (k : Keyboard) : Keyboard :=
  if k.full then { k with reader := .delivering }
  else { k with queue := k.queue ++ [.quit], reader := .ended }

/-- Puts a key if there is room. -/
def put (k : Keyboard) (key : Nat) : Keyboard :=
  if k.full then k else { k with queue := k.queue ++ [.key key] }

/-- Escape and Ctrl+C. -/
def isQuit (code : Int) : Bool := code == 27 || code == 3

/-- The reader takes one character, folded already. -/
def take (l : KeyLayout) (code : Int) (k : Keyboard) : Keyboard :=
  if isQuit code then k.deliver
  else
    match l.keyOf? code with
    | some key => k.put key
    | none => k

inductive Fed where
  | waiting
  | ended
  /-- It had ended before. -/
  | dead
  deriving Repr, DecidableEq

/-- The reader takes characters until it ends or none is left. A character
without a lower-case form ends it with an error. -/
def run (l : KeyLayout) : List Int → Keyboard → Except Text.CaseError Fed × Keyboard
  | codes, k =>
      match k.reader with
      | .ended => (.ok .ended, k)
      | .delivering => (.ok .waiting, k)
      | .reading =>
          if k.dismissed then (.ok .ended, { k with reader := .ended })
          else
            match codes with
            | [] => (.ok .waiting, k)
            | code :: rest =>
                match Text.lowercase code with
                | .error e => (.error e, { k with reader := .ended })
                | .ok code => run l rest (k.take l code)

/-- Types characters at the terminal. -/
def feed (l : KeyLayout) (codes : List Int) (k : Keyboard) :
    Except Text.CaseError Fed × Keyboard :=
  match k.reader with
  | .ended => (.ok .dead, k)
  | .delivering =>
      let k := k.deliver
      (.ok (if k.reader = .ended then .ended else .waiting), k)
  | .reading => run l codes k

/-- Takes keys off the queue, each of which counts as held until a time. A quit
marker is taken too, and leaves what is behind it where it is. -/
def drain (deadline : Binary64) : List Typed → Vector Binary64 keyCount →
    Bool × List Typed × Vector Binary64 keyCount
  | [], held => (false, [], held)
  | .quit :: rest, held => (true, rest, held)
  | .key k :: rest, held => drain deadline rest (held.setIfInBounds k deadline)

/-- Drains the queue at a time. The answer is whether a quit marker was met. -/
def poll (now : Number) (k : Keyboard) : Except Number.Error Bool × Keyboard :=
  match k.queue with
  | .key _ :: rest =>
      match now.addFloat holdTime with
      | .error e => (.error e, { k with queue := rest })
      | .ok time =>
          let (quit, queue, heldUntil) := drain time k.queue k.heldUntil
          (.ok quit, { k with queue, heldUntil })
  | .quit :: rest => (.ok true, { k with queue := rest })
  | [] => (.ok false, k)

/-- For each key, whether it still counts as held. -/
def states (now : Number) (k : Keyboard) : Array Bool :=
  (k.heldUntil.map fun time => now.lt (.float time)).toArray

/-- Tells the reader to end before it takes another character. -/
def dismiss (k : Keyboard) : Keyboard := { k with dismissed := true }

end Keyboard
end Chip8
