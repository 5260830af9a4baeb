import Chip8.Text.Hex

/-!
# Remarks

What the program says while it runs: lines it prints, and records it logs with
a level and the name of the part that speaks. Remarks are kept beside the
state they speak of and never in it, so that no state depends on what was said.
-/
namespace Chip8

/-- How weighty a record is, least first. -/
inductive Level where
  | debug
  | info
  | warning
  | error
  deriving Repr, DecidableEq

namespace Level

def rank : Level → Nat
  | debug => 0
  | info => 1
  | warning => 2
  | error => 3

def label : Level → String
  | debug => "DEBUG"
  | info => "INFO"
  | warning => "WARNING"
  | error => "ERROR"

end Level

structure Record where
  level : Level
  speaker : String
  text : String
  deriving Repr, DecidableEq

inductive Remark where
  /-- A line printed as it is. -/
  | printed (line : String)
  /-- The front end that was chosen. -/
  | chosen (frontEnd : String)
  /-- A program file was read. -/
  | programRead (size : Nat) (name : String)
  /-- A program was put into memory. -/
  | programLoaded (size : Nat) (address : Int)
  /-- An opcode that stands for no instruction was passed over. -/
  | skipped (opcode address : Int)
  /-- The host asked for the end. -/
  | quitRequested
  deriving Repr, DecidableEq

namespace Remark

/-- The line that is printed, if the remark is one. -/
def line? : Remark → Option String
  | printed line => some line
  | _ => none

/-- The record that is logged, if the remark is one. -/
def record? : Remark → Option Record
  | printed _ => none
  | chosen frontEnd => some ⟨.info, "mchip", "Using the " ++ frontEnd ++ " renderer"⟩
  | programRead size name =>
      some ⟨.debug, "mchip.hostio", "Read " ++ toString size ++ " bytes from '" ++ name ++ "'"⟩
  | programLoaded size address =>
      some ⟨.info, "mchip.cpu",
        "Loaded " ++ toString size ++ " byte program at 0x" ++ Text.hexField 3 address⟩
  | skipped opcode address =>
      some ⟨.warning, "mchip.cpu",
        "Unknown instruction 0x" ++ Text.hexField 4 opcode ++ " at address 0x" ++
          Text.hexField 3 address ++ " skipped"⟩
  | quitRequested => some ⟨.info, "mchip", "Quit requested"⟩

end Remark

/-- Everything that was printed, one line after another. -/
def printedText (remarks : Array Remark) : String :=
  (remarks.filterMap Remark.line?).foldl (fun text line => text ++ line ++ "\n") ""

/-- Everything that was logged at a level or above. -/
def recordsFrom (least : Level) (remarks : Array Remark) : Array Record :=
  (remarks.filterMap Remark.record?).filter fun r => least.rank ≤ r.level.rank

end Chip8
