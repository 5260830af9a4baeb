import Chip8.Number.Binary64

/-!
# Numbers

A number is an integer of any size or a binary64 number. Integers stay exact
among themselves; an integer that meets a binary64 number is first rounded to
one, and one that is too large for it is an error. Comparisons never round.
-/
namespace Chip8

inductive Number where
  | int (value : Int)
  | float (value : Binary64)
  deriving Repr, DecidableEq

namespace Number

inductive Error where
  /-- An integer that no binary64 number is near to. -/
  | tooLarge
  /-- An infinity has no whole part. -/
  | wholePartOfInfinity
  /-- What is not a number has no whole part. -/
  | wholePartOfNaN
  deriving Repr, DecidableEq

def Error.message : Error → String
  | tooLarge => "int too large to convert to float"
  | wholePartOfInfinity => "cannot convert float infinity to integer"
  | wholePartOfNaN => "cannot convert float NaN to integer"

/-- The value itself, not rounded. -/
def exact : Number → Binary64
  | int n => .finite n
  | float x => x

/-- The nearest binary64 number. -/
def toBinary64 : Number → Except Error Binary64
  | float x => pure x
  | int n =>
      match Binary64.round n with
      | .finite q => pure (.finite q)
      | _ => throw .tooLarge

def lt (a b : Number) : Bool := a.exact.lt b.exact

def le (a b : Number) : Bool := a.exact.le b.exact

def mul : Number → Number → Except Error Number
  | int a, int b => pure (int (a * b))
  | a, b => do pure (float ((← a.toBinary64).mul (← b.toBinary64)))

/-- A sum with a binary64 number is one. -/
def addFloat (a : Number) (x : Binary64) : Except Error Binary64 := do
  pure ((← a.toBinary64).add x)

def sub : Number → Number → Except Error Number
  | int a, int b => pure (int (a - b))
  | a, b => do pure (float ((← a.toBinary64).sub (← b.toBinary64)))

/-- The number if it is above zero, and otherwise zero. -/
def clampNegative (a : Number) : Number :=
  if lt (float .zero) a then a else float .zero

end Number

/-- The largest integer that is not above the number. -/
def Binary64.wholePart : Binary64 → Except Number.Error Int
  | finite q => pure q.floor
  | infinite _ => throw .wholePartOfInfinity
  | nan => throw .wholePartOfNaN

end Chip8
