import Chip8.Session

/-!
# The main loop

Sixty times a second the loop asks the controls whether to end, lets the machine
run for the time that has passed, passes on its buzzer, and paints its screen if
anything was drawn. Once a second it puts the number of frames and instructions
into the title. Then it sleeps until the next tick is due.

A loop without a limit on its ticks is bounded all the same: every iteration
reads the clock, and when there is no reading left it fails.
-/
namespace Chip8

/-- What the loop remembers from one iteration to the next. -/
structure Pace where
  /-- When the last tick began. -/
  lastTime : Number
  /-- When the next report is due. -/
  reportAt : Binary64
  /-- Frames painted since the last report. -/
  frames : Nat
  deriving Repr, DecidableEq

namespace Loop
open Session

/-- Seconds from one tick to the next. -/
def tickInterval : Binary64 := Binary64.round (1 / 60)

/-- Seconds from one report to the next. -/
def reportInterval : Binary64 := .finite 1

def reportTitle (frames ops : Nat) : String :=
  programTitle ++ " - " ++ toString frames ++ " FPS, " ++ toString ops ++ " OPS"

def runTick (stream : RandomBytes) (lastTime now : Number) : SessionM Unit := do
  let elapsed ← compute (now.sub lastTime)
  let s ← get
  withMachine (Machine.tick stream elapsed (s.controls.states s.host))

/-- Tells the speaker whether the buzzer sounds. -/
def passBuzzer : SessionM Unit := do
  let m := (← get).machine
  withHost (Host.perform (.buzzer m.sounding m.statusLine))
  withSpeaker (Speaker.gate m.sounding)

/-- Paints the screen if anything was drawn since it was last painted. -/
def repaint : SessionM Bool := do
  let s ← get
  let (changed, screen) := s.machine.screen.takeChanged
  set { s with machine := { s.machine with screen } }
  if changed then
    let pixels := screen.pixels.toArray
    withHost (Host.perform (.draw pixels))
    withDisplay (Display.draw pixels)
  pure changed

/-- Puts a report into the title and begins to count anew. -/
def report (frames : Nat) : SessionM Unit := do
  let title := reportTitle frames (← get).machine.ops
  withHost (Host.perform (.title title))
  withDisplay (Display.setTitle title)
  modify fun s => { s with machine := { s.machine with ops := 0 } }

/-- What an iteration does once the user wants to go on, until it has to wait. -/
def work (stream : RandomBytes) (p : Pace) : SessionM Pace := do
  let now ← withHost Host.readClock
  runTick stream p.lastTime now
  passBuzzer
  let frames := if ← repaint then p.frames + 1 else p.frames
  if Number.le (.float p.reportAt) now then
    let reportAt ← compute (now.addFloat reportInterval)
    report frames
    pure ⟨now, reportAt, 0⟩
  else pure ⟨now, p.reportAt, frames⟩

/-- Sleeps until the next tick is due, if that is not over already. -/
def wait (tickTime : Number) : SessionM Unit := do
  let due ← compute (tickTime.addFloat tickInterval)
  let now ← withHost Host.readClock
  let delay ← compute (Number.sub (.float due) now)
  if Number.lt (.int 0) delay then withHost (Host.perform (.sleep delay.exact))

/-- The part of an iteration before the wait. It has no answer if the user wants to end. -/
def turn (stream : RandomBytes) (p : Pace) : SessionM (Option Pace) := do
  if ← withControls Controls.poll then
    say .quitRequested
    pure none
  else pure (some (← work stream p))

/-- One iteration. It has no answer if the user wants to end. -/
def iterate (stream : RandomBytes) (p : Pace) : SessionM (Option Pace) := do
  match ← turn stream p with
  | none => pure none
  | some p =>
      wait p.lastTime
      pure (some p)

/-- At most a number of iterations. -/
def iterations (stream : RandomBytes) : Nat → Pace → SessionM Unit
  | 0, _ => pure ()
  | n + 1, p => do
      match ← iterate stream p with
      | none => pure ()
      | some p => iterations stream n p

def start : SessionM Pace := do
  let now ← withHost Host.readClock
  let reportAt ← compute (now.addFloat reportInterval)
  pure ⟨now, reportAt, 0⟩

/-- Runs until the user wants to end, or for a number of ticks if one is given.
More iterations than there are clock readings cannot be completed. -/
def run (stream : RandomBytes) (maxTicks : Option Int) : SessionM Unit := do
  let p ← start
  let s ← get
  iterations stream ((maxTicks.map Int.toNat).getD (s.host.readings.length + 1)) p

end Loop
end Chip8
