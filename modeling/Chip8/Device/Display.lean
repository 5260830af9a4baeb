import Chip8.Host.Basic

/-!
# Displays

A display is handed whole frames and titles. The null display only checks that a
frame has the right size. The window paints every frame anew. The terminal keeps
the last frame and writes only the pixels that differ, each as a few cells in
reverse or plain video; the row above the picture is for the title.
-/
namespace Chip8

structure Pad where
  /-- How many cells wide a pixel is. -/
  scale : Int
  /-- Whether there is a pad to write on. -/
  present : Bool
  /-- The frame that the pad shows. -/
  shown : Array Bool
  /-- The height and width of the terminal when it was last redrawn. -/
  redrawnAt : Int × Int
  deriving Repr, DecidableEq

inductive Surface where
  /-- Nothing is shown. -/
  | null
  /-- The window has a size of its own, to which frames are stretched. -/
  | window (width height : Numeral)
  | terminal (pad : Pad)
  deriving Repr

/-- A display and the resolution of the frames it takes. -/
structure Display where
  /-- What was asked for as the width of a window, or of a pixel. -/
  scale : OptionValue
  width : Int
  height : Int
  framesDrawn : Nat
  surface : Surface
  deriving Repr

namespace Display

/-- A display that has drawn nothing, of no resolution yet. -/
def fresh (scale : OptionValue) (surface : Surface) : Display := ⟨scale, 0, 0, 0, surface⟩

def null : Display := fresh (.int 1) .null

/-- The pad that holds a picture: a row more than the picture at the top, one at
the bottom, and a column more at the right. -/
def newPad (width height scale : Int) : TerminalCall := .newPad (height + 2) (width * scale + 1)

def cells (scale : Int) : String := String.ofList (List.replicate scale.toNat ' ')

def defaultScale : FrontEnd → Int
  | .null => 1
  | .window => 512
  | .terminal => 2

/-- The scale that is asked for, or else the default. -/
def chosenScale (kind : FrontEnd) (scale : OptionValue) : OptionValue :=
  if scale.isNull then .int (defaultScale kind) else scale

/-- The number of cells that a value asks for. -/
def cellCount (scale : OptionValue) : Except Failure Int :=
  match scale.int? with
  | some n => do
      let _ ← (Storage.entries 1 n).mapError Failure.storage
      pure n
  | none => throw (.unsuited .repetition scale.kindName)

def windowSize (scale : OptionValue) : Except Failure (Numeral × Numeral) :=
  match scale.numeral? with
  | some width => pure (width, width.halved)
  | none => throw (.unsuited .halving scale.kindName)

/-- Makes a display ready, at a scale if one is asked for. -/
def acquire (kind : FrontEnd) (scale : OptionValue) : HostM Display := do
  let scale := chosenScale kind scale
  match kind with
  | .null => pure (fresh scale .null)
  | .window =>
      Host.perform (.window .acquire)
      Host.perform (.window (.caption programTitle))
      let (width, height) ← Host.compute (windowSize scale)
      Host.perform (.window (.setSize width height))
      pure (fresh scale (.window width height))
  | .terminal =>
      let count ← Host.compute (cellCount scale)
      Host.perform (.terminal .acquire)
      Host.perform (.terminal (.cursor 0))
      Host.perform (.terminal .hideTyping)
      Host.perform (.terminal .readCharacters)
      Host.perform (.terminal (newPad 0 0 count))
      pure (fresh scale (.terminal ⟨count, true, #[], (-1, -1)⟩))

/-- A number of entries, if there is space for them. -/
def within (check : Except Storage.Error Nat) : DeviceM Display Nat :=
  onHost (Host.compute (check.mapError Failure.storage))

def pixelBytes : Nat := 3

/-- Sets the resolution. A terminal begins with a blank pad of that size. -/
def setResolution (width height : Int) : DeviceM Display Unit := do
  let d ← current
  match d.surface with
  | .null => pure ()
  | .window .. => let _ ← within (Storage.repetitions pixelBytes (width * height))
  | .terminal pad =>
      onHost (Host.perform (.terminal (newPad width height pad.scale)))
      let pad := { pad with present := true }
      adjust fun d => { d with surface := .terminal pad }
      let size ← within (Storage.entries Storage.wordSize (width * height))
      let shown := Array.replicate size false
      adjust fun d => { d with surface := .terminal { pad with shown } }
  adjust fun d => { d with width, height }

/-- Where a pixel is written: its row, below the title, and its first column. -/
def cellOf (width scale : Int) (index : Nat) : Int × Int :=
  (Int.fdiv index width + 1, Int.fmod index width * scale)

/-- The writes that turn one frame into another, in row-major order. -/
def repaints (width scale : Int) (shown pixels : List Bool) : List TerminalCall :=
  (shown.zip pixels).zipIdx.filterMap fun ((before, now), index) =>
    if before = now then none
    else
      let (row, column) := cellOf width scale index
      some (.write row column (cells scale) now)

/-- Shows the pad. A terminal whose size has changed is redrawn first. -/
def showPad : DeviceM Display Unit := do
  let d ← current
  match d.surface with
  | .terminal pad =>
      let (height, width) ← onHost Host.terminalSize
      if pad.redrawnAt ≠ (height, width) then
        onHost (Host.perform (.terminal .clear))
        if (← get).host.resizable then
          onHost (Host.perform (.terminal (.resize height width)))
        onHost (Host.perform (.terminal .refresh))
        adjust fun d =>
          { d with surface := .terminal { pad with redrawnAt := (height, width) } }
      if pad.present then
        onHost (Host.perform (.terminal (.showPad (height - 1) (width - 1))))
      else throw (.padGone "refresh")
  | _ => pure ()

/-- Draws a frame. One that does not match the resolution is refused before anything is done. -/
def draw (pixels : Array Bool) : DeviceM Display Unit := do
  let d ← current
  if (pixels.size : Int) ≠ d.width * d.height then throw (.frameSize d.width d.height)
  adjust fun d => { d with framesDrawn := d.framesDrawn + 1 }
  match d.surface with
  | .null => pure ()
  | .window width height =>
      if pixels.isEmpty then pure ()
      else
        onHost (Host.performAll [
          .window (.frame pixels d.width d.height),
          .window (.stretch width height),
          .window .paint,
          .window .flip])
  | .terminal pad =>
      let writes := repaints d.width pad.scale pad.shown.toList pixels.toList
      if !writes.isEmpty && !pad.present then throw (.padGone "addstr")
      onHost (Host.performAll (writes.map HostCall.terminal))
      adjust fun d => { d with surface := .terminal { pad with shown := pixels } }
      showPad

/-- Sets the title, if there is a place to show it. -/
def setTitle (text : String) : DeviceM Display Unit := do
  let d ← current
  match d.surface with
  | .null => pure ()
  | .window .. => onHost (Host.perform (.window (.caption text)))
  | .terminal pad =>
      let room := d.width * pad.scale
      if pad.present && text.length < room then
        let width ← within (Storage.lineWidth room)
        let line := text.toList ++ List.replicate (width - text.length) ' '
        onHost (Host.perform (.terminal (.write 0 0 (String.ofList line) true)))

/-- Gives the display back. A terminal that cannot show its cursor again is given
back all the same. -/
def release : DeviceM Display Unit := do
  let d ← current
  match d.surface with
  | .null => pure ()
  | .window .. => onHost (Host.perform (.window .release))
  | .terminal pad =>
      adjust fun d => { d with surface := .terminal { pad with present := false } }
      onHost (Host.perform (.terminal .readLines))
      onHost (Host.perform (.terminal .showTyping))
      onHost (Host.attempt (.terminal (.cursor 1)))
      onHost (Host.perform (.terminal .release))

end Display
end Chip8
