import Chip8.CommandLine.Switch
import Chip8.Text.Integer

/-!
# Arguments

Before a command line is carried out, each of its arguments is told to be a
plain value or a switch. A switch is written as a dash and its letter, or as two
dashes and the beginning of its word. A value may be attached: to a word or a
letter after an equals sign, to a letter also directly. A negative number, an
argument with a space in it and a dash alone are plain values. After an argument
of two dashes all arguments are plain.
-/
namespace Chip8.CommandLine

inductive Argument where
  | plain (text : String)
  /-- The first argument of two dashes. -/
  | separator
  /-- A switch, whether it is written by its letter, and the value attached to it. -/
  | switch (s : Switch) (byLetter : Bool) (attached : Option (List Char))
  | unknown (text : String)
  deriving Repr, DecidableEq

/-- Why an argument cannot be told. -/
structure Ambiguity where
  text : String
  switches : List Switch
  deriving Repr, DecidableEq

namespace Argument

/-- Digits of any script and nothing else. -/
def allDigits (cs : List Char) : Bool := cs.all fun c => (Text.digitValue? c).isSome

/-- Digits, or digits with a point before the last of them. -/
def isMagnitude (cs : List Char) : Bool :=
  let whole := cs.takeWhile (· != '.')
  match cs.dropWhile (· != '.') with
  | [] => !whole.isEmpty && allDigits whole
  | _ :: decimals => allDigits whole && !decimals.isEmpty && allDigits decimals

/-- What follows the dash of a negative number. One line end may follow it. -/
def isNegativeNumber (cs : List Char) : Bool :=
  isMagnitude cs || (cs.getLast? == some '\n' && isMagnitude cs.dropLast)

/-- The two sides of the first equals sign. -/
def splitAtEquals (cs : List Char) : Option (List Char × List Char) :=
  match cs.dropWhile (· != '=') with
  | [] => none
  | _ :: value => some (cs.takeWhile (· != '='), value)

/-- An argument that begins with a dash and is no switch. -/
def withoutSwitch (text : String) (afterDash : List Char) : Argument :=
  if isNegativeNumber afterDash || afterDash.contains ' ' then plain text else unknown text

/-- An argument that begins with two dashes. -/
def ofWord (text : String) (w : List Char) : Except Ambiguity Argument :=
  let (w, attached) :=
    match splitAtEquals w with
    | some (w, value) => (w, some value)
    | none => (w, none)
  match Switch.ofWord? w with
  | some s => pure (switch s false attached)
  | none =>
      match Switch.beginningWith w with
      | [] => pure (withoutSwitch text text.toList.tail)
      | [s] => pure (switch s false attached)
      | several => throw ⟨text, several⟩

/-- An argument that begins with one dash and a letter. -/
def ofLetter (text : String) (c : Char) (rest : List Char) : Argument :=
  match Switch.ofLetter? c with
  | none => withoutSwitch text (c :: rest)
  | some s =>
      match rest with
      | [] => switch s true none
      | '=' :: value => switch s true (some value)
      | value => switch s true (some value)

/-- What an argument is on its own. -/
def ofText (text : String) : Except Ambiguity Argument :=
  match text.toList with
  | '-' :: '-' :: w => ofWord text w
  | '-' :: c :: rest => pure (ofLetter text c rest)
  | _ => pure (plain text)

/-- What the arguments of a command line are. -/
def ofTexts : List String → Except Ambiguity (List Argument)
  | [] => pure []
  | text :: rest =>
      if text = "--" then pure (separator :: rest.map plain)
      else do pure ((← ofText text) :: (← ofTexts rest))

/-- The argument as it was written, where it is left over. -/
def leftOver : Argument → List String
  | plain text => [text]
  | separator => ["--"]
  | unknown text => [text]
  | switch .. => []

end Argument
end Chip8.CommandLine
