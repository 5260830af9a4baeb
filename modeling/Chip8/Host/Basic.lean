import Chip8.Host.Failure

/-!
# The host

The host is everything outside the program: what its clock reads, what its user
does, how large its terminal is, and which calls it refuses. It keeps a
transcript of the calls made to it. An activity that fails keeps what it did
before it failed.
-/
namespace Chip8

inductive WindowEvent where
  | closed
  | pressed (code : Int)
  | released (code : Int)
  deriving Repr, DecidableEq

/-- What the user does between two turns of the main loop. -/
structure Turn where
  /-- A rehearsed loop is asked to end. -/
  quit : Bool
  /-- The keys that a rehearsed loop sees. -/
  keys : Array Bool
  /-- What the window reports. -/
  events : List WindowEvent
  /-- The codes of the keys held down in the window. -/
  held : List Int
  /-- The characters typed at the terminal. -/
  typed : List Int
  deriving Repr, DecidableEq

def Turn.idle : Turn := ⟨false, Array.replicate keyCount false, [], [], []⟩

inductive DeviceKind where
  | display
  | controls
  | speaker
  deriving Repr, DecidableEq

/-- The stages between the choice of a front end and the end of the program. -/
inductive Stage where
  | acquire (device : DeviceKind)
  /-- The display is told the size of the screen. -/
  | resolution
  | loop
  | release (device : DeviceKind)
  deriving Repr, DecidableEq

/-- What a transcript tells: the calls, and how each stage began and ended. -/
inductive Event where
  | call (call : HostCall)
  | begun (stage : Stage)
  | ended (stage : Stage) (failure : Option Failure)
  deriving Repr, DecidableEq

structure Host where
  transcript : Array Event
  /-- The clock readings to come. -/
  readings : List Number
  /-- The reading taken last. -/
  now : Number
  /-- The turns to come; after the last the user is idle. -/
  turns : List Turn
  turn : Turn
  /-- Heights and widths of the terminal; the last one stays. -/
  sizes : List (Int × Int)
  /-- Whether the terminal can be told its size. -/
  resizable : Bool
  refuses : HostCall → Bool

abbrev HostM := EStateM Failure Host

namespace Host

/-- A host on which nothing has happened, with an ordinary terminal. -/
def quiet : Host where
  transcript := #[]
  readings := []
  now := .float .zero
  turns := []
  turn := Turn.idle
  sizes := [(24, 80)]
  resizable := true
  refuses := fun _ => false

/-- The calls made so far, oldest first. -/
def calls (h : Host) : List HostCall :=
  h.transcript.toList.filterMap fun
    | .call c => some c
    | _ => none

def note (e : Event) : HostM Unit :=
  modify fun h => { h with transcript := h.transcript.push e }

/-- Makes a call, which fails if the host refuses it. -/
def perform (c : HostCall) : HostM Unit := do
  note (.call c)
  if (← get).refuses c then throw (.refused c)

/-- Makes calls in order, up to the first that is refused. -/
def performAll : List HostCall → HostM Unit
  | [] => pure ()
  | c :: rest => do perform c; performAll rest

/-- Makes a call and goes on even if it is refused. -/
def attempt (c : HostCall) : HostM Unit := note (.call c)

def compute {α : Type} : Except Failure α → HostM α
  | .ok a => pure a
  | .error e => throw e

def readClock : HostM Number := do
  let h ← get
  match h.readings with
  | [] => throw .interrupted
  | t :: rest =>
      set { h with readings := rest, now := t }
      pure t

def nextTurn : HostM Turn := do
  let h ← get
  let (turn, turns) :=
    match h.turns with
    | [] => (Turn.idle, [])
    | turn :: rest => (turn, rest)
  set { h with turn, turns }
  pure turn

def terminalSize : HostM (Int × Int) := do
  let h ← get
  match h.sizes with
  | [] => pure (24, 80)
  | [size] => pure size
  | size :: rest =>
      set { h with sizes := rest }
      pure size

end Host

/-- A device with the host it is attached to. -/
structure Attached (δ : Type) where
  host : Host
  device : δ

/-- An activity of a device. It reaches nothing but the device and the host. -/
abbrev DeviceM (δ : Type) := EStateM Failure (Attached δ)

/-- An activity on the host alone, seen from a device. -/
def onHost {δ α : Type} (x : HostM α) : DeviceM δ α := fun s =>
  match x s.host with
  | .ok a host => .ok a { s with host }
  | .error e host => .error e { s with host }

def adjust {δ : Type} (f : δ → δ) : DeviceM δ Unit :=
  modify fun s => { s with device := f s.device }

def current {δ : Type} : DeviceM δ δ := do pure (← get).device

end Chip8
