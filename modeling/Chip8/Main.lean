import Chip8.CommandLine.Program

/-!
# The command

Reads the command line and the program file, and runs the machine against the
real clock. This build has no window and no terminal, so the null front end is
the only one it can start; it shows the log and the traces. Everything that is
decided is decided by the library; this module only reads and prints.
-/
namespace Chip8.Command

def usage : String :=
  "usage: [-h] [-c CLOCK_SPEED] [-r RENDERER] [-s SCALE] [-m MUTE] [-k KEYMAP] " ++
    "[-l LOG_LEVEL] [-d] filename"

def readFile (path : String) : IO ProgramFile.Files := do
  try
    let bytes ← IO.FS.readBinFile path
    pure fun _ => .ok bytes.data
  catch
    | .inappropriateType .. => pure fun _ => .error .isDirectory
    | _ => pure fun _ => .error .notFound

/-- Seconds since some fixed moment. -/
def readClock : IO Number := do
  let nanoseconds ← IO.monoNanosNow
  pure (.float (Binary64.round ((nanoseconds : Rat) / 1000000000)))

/-- A supply of random bytes, drawn from the start again when it is used up. -/
def randomBytes : IO RandomBytes := do
  let bytes := (← IO.getRandomBytes 65536).data
  pure fun k => bytes.getD (k % bytes.size) 0

/-- Prints what was said, and nothing below a level of the log. -/
def showRemarks (least : Level) (remarks : Array Remark) : IO Unit := do
  IO.print (printedText remarks)
  IO.eprint (CommandLine.logText least remarks)

def sleepFor (calls : List HostCall) : IO Unit :=
  calls.forM fun call =>
    match call with
    | .sleep (.finite seconds) => IO.sleep (seconds * 1000).floor.toNat.toUInt32
    | _ => pure ()

/-- Lets an activity happen at the present time. A failure is told and ends the program. -/
def act {α : Type} (least : Level) (x : SessionM α) (s : Session) : IO (Option (α × Session)) := do
  let now ← readClock
  let s := { s with
    host := { s.host with readings := [now], transcript := #[] }
    remarks := #[] }
  match x s with
  | .ok a s => do
      showRemarks least s.remarks
      sleepFor s.host.calls
      pure (some (a, s))
  | .error e s => do
      showRemarks least s.remarks
      IO.eprintln e.message
      pure none

/-- Iterates until the loop ends; the answer is whether it ended well. -/
partial def iterate (least : Level) (stream : RandomBytes) (p : Pace) (s : Session) : IO Bool := do
  match ← act least (Loop.turn stream p) s with
  | none => pure false
  | some (none, _) => pure true
  | some (some p, s) =>
      match ← act least (Loop.wait p.lastTime) s with
      | none => pure false
      | some (_, s) => iterate least stream p s

/-- Makes the devices ready and begins the loop. -/
def start (p : Prepared) : SessionM Pace := do
  Startup.acquireDisplay p.frontEnd p.scale
  Startup.matchScreen
  Startup.acquireControls p.frontEnd p.layout
  Startup.acquireSpeaker p.speaker
  Loop.start

/-- Starts up, showing records at a level or above, and runs the machine. -/
def runFrom (least : Level) (settings : CommandLine.Settings) : IO UInt32 := do
  let files ← readFile (settings.programName.getD "")
  match Startup.prepare ⟨false, false⟩ files settings.options #[] with
  | .error e remarks => do
      showRemarks least remarks
      IO.eprintln e.message
      pure 1
  | .ok p remarks => do
      showRemarks least remarks
      match ← act least (start p) (.begin .quiet p.machine #[]) with
      | none => pure 1
      | some (pace, s) => do
          if ← iterate least (← randomBytes) pace s then pure 0 else pure 1

def run (settings : CommandLine.Settings) : IO UInt32 := do
  match settings.leastLevel with
  | .ok least => runFrom least settings
  | .error e => do
      IO.eprintln e.message
      pure 1

end Chip8.Command

def main (arguments : List String) : IO UInt32 := do
  match Chip8.CommandLine.parse arguments with
  | .ok settings => Chip8.Command.run settings
  | .error .help => do
      IO.println Chip8.Command.usage
      pure 0
  | .error (.usage e) => do
      IO.eprintln Chip8.Command.usage
      IO.eprintln e.line
      pure 2
