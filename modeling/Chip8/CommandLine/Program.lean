import Chip8.CommandLine.Parse
import Chip8.Startup

/-!
# The program behind the command line

What a command line asks for, as options of a start-up, and the log as the
command line shows it.
-/
namespace Chip8.CommandLine

/-- What a switch is given, as a value of an option. Where it was dropped, the list
of what is left is empty. -/
def Given.optionValue {α : Type} (write : α → OptionValue) : Given α → OptionValue
  | value a => write a
  | dropped => .list []

/-- The value of an option whose switch may not have been used. -/
def chosen {α : Type} (write : α → OptionValue) : Option α → OptionValue
  | some a => write a
  | none => .null

/-- The options of a start-up; none of them is missing. -/
def Settings.options (s : Settings) : Options where
  programName := some (chosen .text s.programName)
  clockSpeed := some (chosen (Given.optionValue .int) s.clockSpeed)
  frontEnd := some (chosen (Given.optionValue fun f => .text f.name) s.frontEnd)
  scale := some (chosen (Given.optionValue .int) s.scale)
  muted := some (chosen (Given.optionValue fun b => .int b.toNat) s.muted)
  layout := some (s.layout.optionValue .text)
  traced := some (.flag s.traced)

/-- The least level of the log that is shown. -/
def Settings.leastLevel (s : Settings) : Except Failure Level :=
  match s.logLevel with
  | .value level => pure level
  | .dropped => throw (.unsuited .capitals (OptionValue.list []).kindName)

/-- A record of the log as one line. -/
def logLine (r : Record) : String :=
  "[" ++ r.level.label ++ "] " ++ r.speaker ++ ": " ++ r.text ++ "\n"

/-- The records at a level or above, as lines. -/
def logText (least : Level) (remarks : Array Remark) : String :=
  (recordsFrom least remarks).foldl (fun text r => text ++ logLine r) ""

end Chip8.CommandLine
