import Chip8.Number.Decimal

/-!
# Numerals

A number as it was given: a flag counts as one or zero, and a zero may carry a
minus sign. Arithmetic does not look at either; texts show both.
-/
namespace Chip8

inductive Numeral where
  | flag (on : Bool)
  | int (n : Int)
  | float (x : Binary64)
  /-- The binary64 zero with a minus sign. -/
  | negativeZero
  deriving Repr, DecidableEq

namespace Numeral

def toNumber : Numeral → Number
  | flag on => .int on.toNat
  | int n => .int n
  | float x => .float x
  | negativeZero => .float .zero

def int? (n : Numeral) : Option Int :=
  match n.toNumber with
  | .int n => some n
  | .float _ => none

/-- The word of messages for numbers of this kind. -/
def kindName : Numeral → String
  | flag _ => "bool"
  | int _ => "int"
  | float _ => "float"
  | negativeZero => "float"

def inMessage : Numeral → String
  | flag on => if on then "True" else "False"
  | int n => toString n
  | float x => x.decimalText "inf" "nan"
  | negativeZero => "-0.0"

/-- The numeral as transcripts show it. -/
def inTranscript : Numeral → String
  | flag on => if on then "true" else "false"
  | int n => toString n
  | float x => x.decimalText "Infinity" "NaN"
  | negativeZero => "-0.0"

/-- The whole number of times that two goes into a number. -/
def halved : Numeral → Numeral
  | flag _ => int 0
  | int n => int (Int.fdiv n 2)
  | float (.finite q) => float (.finite (q / 2).floor)
  | float _ => float .nan
  | negativeZero => negativeZero

end Numeral
end Chip8
