import Chip8.Loop

/-!
# Start-up

Start-up happens in two parts. The preparation chooses a front end, reads the
program file and builds a machine; it asks nothing of any device. The launch
makes the devices ready one after another, runs the main loop, and gives the
devices back in the opposite order, whatever fails on the way.
-/
namespace Chip8

/-- What the program was asked to do. An option may be missing altogether, which
is found out when it is needed. -/
structure Options where
  programName : Option OptionValue
  clockSpeed : Option OptionValue
  frontEnd : Option OptionValue
  scale : Option OptionValue
  muted : Option OptionValue
  layout : Option OptionValue
  traced : Option OptionValue
  deriving Repr

structure Installed where
  window : Bool
  terminal : Bool
  deriving Repr, DecidableEq

structure Prepared where
  frontEnd : FrontEnd
  speaker : FrontEnd
  machine : Machine
  scale : OptionValue
  layout : Option OptionValue

def banner : String :=
  introduction ++
    "Copyright (C) 2022 Gregory Maynard-Hoare, licensed under GNU Affero General Public License v3.0"

namespace Startup
open Session

/-- The front end that is asked for, if the host has it. Without a wish the
window comes first and the terminal second. -/
def chooseFrontEnd (installed : Installed) : OptionValue → Except Rejection FrontEnd
  | .null =>
      if installed.window then pure .window
      else if installed.terminal then pure .terminal
      else throw .noFrontEnd
  | .text name =>
      if name = FrontEnd.window.name then
        if installed.window then pure .window else throw .noWindow
      else if name = FrontEnd.terminal.name then
        if installed.terminal then pure .terminal else throw .noTerminal
      else if name = FrontEnd.null.name then pure .null
      else throw (.unknownFrontEnd name)
  | wish => throw (.unknownFrontEnd wish.inMessage)

/-- The speaker that goes with a front end. A window sounds unless it is muted, a
terminal only if it is asked to. -/
def chooseSpeaker (frontEnd : FrontEnd) (muted : OptionValue) : FrontEnd :=
  match frontEnd with
  | .window => if muted.isYes then .null else .window
  | .terminal => if muted.isYes || muted.isNull then .null else .terminal
  | .null => .null

/-- The value of an option that must not be missing. -/
def need {α : Type} (name : String) : Option α → Except Failure α
  | some value => pure value
  | none => throw (.missingOption name)

def chooseClockSpeed (wish : OptionValue) : Except Failure Number :=
  match wish with
  | .null => pure Pacer.defaultClockSpeed
  | .numeral n => pure n.toNumber
  | wish => throw (.unsuited .comparison wish.kindName)

/-- One more than the largest number of an open file. -/
def fileNumberLimit : Int := 0x80000000

/-- Why a value that is not a name leads to no file. A number might, but no file
is open before this one. -/
def nameless (value : OptionValue) : Failure :=
  match value.int? with
  | some n =>
      if n < -fileNumberLimit ∨ fileNumberLimit ≤ n then .unsuited .fileName value.kindName
      else if n < 0 then .negativeFile
      else .rejected (.program .notOpen)
  | none => .unsuited .fileName value.kindName

def chooseName : OptionValue → Except Failure String
  | .text name => pure name
  | value => throw (nameless value)

/-- The program in a file. A file that cannot be used rejects the start-up. -/
def readProgram (files : ProgramFile.Files) (name : String) : Except Failure (Array UInt8) :=
  match ProgramFile.read files name with
  | .ok bytes => pure bytes
  | .error .nullInName => throw .nullInName
  | .error e => throw (.rejected (.program e))

/-- An activity of the preparation: what it says is kept whether or not it fails. -/
abbrev PrepareM := EStateM Failure (Array Remark)

def say (r : Remark) : PrepareM Unit := modify (·.push r)

def attempt {α : Type} : Except Failure α → PrepareM α
  | .ok a => pure a
  | .error e => throw e

def machineWith (pacer : Pacer) (traced : Bool) (program : Array UInt8) : Outcome :=
  (Machine.new pacer traced).load program

/-- Why a machine did not take its program. A program that reaches past the end of memory
rejects the start-up. -/
def unloaded : Stop → Failure
  | .faulted (.memory (.outside address top)) => .rejected (.memory (.outside address top))
  | stop => .stopped stop

def prepare (installed : Installed) (files : ProgramFile.Files) (o : Options) :
    PrepareM Prepared := do
  say (.printed banner)
  let wish ← attempt (need "renderer" o.frontEnd)
  let muted ← attempt (need "mute" o.muted)
  let frontEnd ← attempt ((chooseFrontEnd installed wish).mapError Failure.rejected)
  say (.chosen frontEnd.name)
  let clockSpeed ← attempt (need "clock_speed" o.clockSpeed)
  let pacer ←
    match Pacer.ofClockSpeed? (← attempt (chooseClockSpeed clockSpeed)) with
    | some pacer => pure pacer
    | none => throw (.rejected .clockSpeed)
  let name ← attempt (need "filename" o.programName)
  let name ← attempt (chooseName name)
  let program ← attempt (readProgram files name)
  say (.programRead program.size name)
  let traced ← attempt (need "debug" o.traced)
  let loaded := machineWith pacer traced.isYes program
  modify (· ++ loaded.remarks)
  match loaded.stop with
  | some stop => throw (unloaded stop)
  | none => pure ()
  let scale ← attempt (need "scale" o.scale)
  pure ⟨frontEnd, chooseSpeaker frontEnd muted, loaded.machine, scale, o.layout⟩

def acquireDisplay (kind : FrontEnd) (scale : OptionValue) : SessionM Unit :=
  staged (.acquire .display) do
    let display ← withHost (Display.acquire kind scale)
    modify fun s => { s with display }

/-- Tells the display the size of the screen. -/
def matchScreen : SessionM Unit :=
  staged .resolution (withDisplay (Display.setResolution screenWidth screenHeight))

def needLayout (layout : Option OptionValue) : Except Failure String := do
  match ← need "keymap" layout with
  | .text layout => pure layout
  | value => throw (.unsuited .splitting value.kindName)

def acquireControls (kind : FrontEnd) (layout : Option OptionValue) : SessionM Unit :=
  staged (.acquire .controls) do
    match needLayout layout with
    | .error e => throw e
    | .ok text =>
        match Controls.acquire kind false text with
        | .error e => throw (.layout e)
        | .ok controls => modify fun s => { s with controls }

def acquireSpeaker (kind : FrontEnd) : SessionM Unit :=
  staged (.acquire .speaker) do
    let speaker ← withHost (Speaker.acquire kind)
    modify fun s => { s with speaker }

def releaseDisplay : SessionM Unit :=
  staged (.release .display) (withDisplay Display.release)

def releaseControls : SessionM Unit :=
  staged (.release .controls) (withControls Controls.release)

def releaseSpeaker : SessionM Unit :=
  staged (.release .speaker) (withSpeaker Speaker.release)

/-- The main loop, which is announced before it begins. -/
def runLoop (stream : RandomBytes) (p : Prepared) : SessionM Unit :=
  staged .loop do
    withHost (Host.note (.call (.run p.frontEnd p.frontEnd p.speaker)))
    Loop.run stream none

/-- The loop with a speaker, which is given back in the end. -/
def withSpeakerReady (stream : RandomBytes) (p : Prepared) : SessionM Unit := do
  acquireSpeaker p.speaker
  thenAlways (runLoop stream p) releaseSpeaker

/-- The same with controls. -/
def withControlsReady (stream : RandomBytes) (p : Prepared) : SessionM Unit := do
  acquireControls p.frontEnd p.layout
  thenAlways (withSpeakerReady stream p) releaseControls

/-- The launch: the same with a display. -/
def launch (stream : RandomBytes) (p : Prepared) : SessionM Unit := do
  acquireDisplay p.frontEnd p.scale
  thenAlways
    (do
      matchScreen
      withControlsReady stream p)
    releaseDisplay

structure Ending where
  failure : Option Failure
  remarks : Array Remark
  /-- The session, if the launch was reached. -/
  session : Option Session

def run (stream : RandomBytes) (installed : Installed) (files : ProgramFile.Files) (host : Host)
    (o : Options) : Ending :=
  match prepare installed files o #[] with
  | .error e remarks => ⟨some e, remarks, none⟩
  | .ok p remarks =>
      match launch stream p (.begin host p.machine remarks) with
      | .error e s => ⟨some e, s.remarks, some s⟩
      | .ok _ s => ⟨none, s.remarks, some s⟩

end Startup
end Chip8
