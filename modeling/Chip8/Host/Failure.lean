import Chip8.Host.Call
import Chip8.KeyLayout
import Chip8.Machine.Report
import Chip8.OptionValue
import Chip8.Program.Load

/-!
# Failures

Everything that can end the program early, by cause, with the words for it.
-/
namespace Chip8

inductive Rejection where
  | noWindow
  | noTerminal
  | noFrontEnd
  | unknownFrontEnd (name : String)
  | clockSpeed
  | program (error : ProgramFile.Error)
  /-- The program was read, and the memory does not take it. -/
  | memory (error : Memory.Error)
  deriving Repr, DecidableEq

def Rejection.message : Rejection → String
  | noWindow => "PyGame does not appear to be installed."
  | noTerminal => "Curses (or Windows-Curses) does not appear to be installed."
  | noFrontEnd => "Neither PyGame nor Curses (or Windows-Curses) appear to be installed."
  | unknownFrontEnd name =>
      "Unknown renderer '" ++ name ++ "'.  Choose from: " ++
        String.intercalate ", " ([FrontEnd.window, .terminal, .null].map FrontEnd.name)
  | clockSpeed => "Clock speed must be above zero."
  | program error => "Unable to load ROM: " ++ error.message
  | memory error => "Unable to load ROM: " ++ error.message

/-- What a value was wanted for. -/
inductive Use where
  /-- To be compared with an integer. -/
  | comparison
  /-- As the name of a file. -/
  | fileName
  /-- To be divided by two. -/
  | halving
  /-- As a number of cells. -/
  | repetition
  /-- To be taken apart at its commas. -/
  | splitting
  /-- To be put into capitals. -/
  | capitals
  deriving Repr, DecidableEq

/-- What is said of a value of a kind that is not for this use. -/
def Use.message (use : Use) (kind : String) : String :=
  match use with
  | comparison => "'<=' not supported between instances of '" ++ kind ++ "' and 'int'"
  | fileName => "expected str, bytes or os.PathLike object, not " ++ kind
  | halving => "unsupported operand type(s) for //: '" ++ kind ++ "' and 'int'"
  | repetition => "can't multiply sequence by non-int of type '" ++ kind ++ "'"
  | splitting => "'" ++ kind ++ "' object has no attribute 'split'"
  | capitals => "'" ++ kind ++ "' object has no attribute 'upper'"

inductive Failure where
  /-- The machine stopped. -/
  | stopped (stop : Stop)
  | layout (error : KeyLayout.Error)
  /-- A frame does not match the resolution. -/
  | frameSize (width height : Int)
  /-- The terminal has been given back, and this is asked of its pad. -/
  | padGone (request : String)
  /-- The host refused a call. -/
  | refused (call : HostCall)
  /-- There is no further clock reading. -/
  | interrupted
  /-- A computation with clock readings has no result. -/
  | number (error : Number.Error)
  /-- A typed character has no lower-case form. -/
  | character (error : Text.CaseError)
  /-- An option was not given at all. -/
  | missingOption (name : String)
  | rejected (reason : Rejection)
  /-- The name of the program file holds a null character. -/
  | nullInName
  /-- A value is of a kind that is not for what it was wanted for. -/
  | unsuited (use : Use) (kind : String)
  /-- A program file was asked for by a number below zero. -/
  | negativeFile
  /-- There is no space for a text or a frame. -/
  | storage (error : Storage.Error)
  deriving Repr, DecidableEq

def Failure.message : Failure → String
  | stopped stop => stop.message
  | layout error => error.message
  | frameSize width height =>
      "Framebuffer does not match the " ++ toString width ++ "x" ++ toString height ++ " display"
  | padGone request => "'NoneType' object has no attribute '" ++ request ++ "'"
  | refused call => call.name ++ " failed"
  | interrupted => "clock exhausted"
  | number error => error.message
  | character error => error.message
  | missingOption name => Text.quoteInMessage name
  | rejected reason => reason.message
  | nullInName => ProgramFile.Error.nullInName.message
  | unsuited use kind => use.message kind
  | negativeFile => "negative file descriptor"
  | storage error => error.message

end Chip8
