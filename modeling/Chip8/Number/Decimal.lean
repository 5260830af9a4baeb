import Chip8.Number.Basic

/-!
# Decimal text

A binary64 number is written with the fewest digits that read back to it, and of
those with the digits nearest to it. Numbers from a ten-thousandth up to ten to
the sixteenth are written positionally, with a digit on either side of the point;
all others with an exponent of at least two digits.
-/
namespace Chip8

/-- Digits, as a whole number, at a power of ten. -/
structure Decimal where
  digits : Nat
  exponent : Int
  deriving Repr, DecidableEq

namespace Decimal

def value (d : Decimal) : Rat := (d.digits : Rat) * (10 : Rat) ^ d.exponent

/-- The exponent of the largest power of ten that is at most a value above zero. -/
def leadingExponent (q : Rat) : Int :=
  let length := fun (n : Nat) => ((Nat.toDigits 10 n).length : Int)
  let guess := length q.num.natAbs - length q.den
  if q < (10 : Rat) ^ guess then guess - 1 else guess

/-- The two neighbours of a value above zero among the decimals with a number of digits. -/
def neighbours (q : Rat) (count : Nat) : Decimal × Decimal :=
  let exponent := leadingExponent q + 1 - count
  let below := (q / (10 : Rat) ^ exponent).floor.toNat
  (⟨below, exponent⟩, ⟨below + 1, exponent⟩)

/-- Whether a decimal is read as this value. -/
def readsAs (q : Rat) (d : Decimal) : Bool := Binary64.round d.value == .finite q

/-- Of two neighbours the one nearer to the value; half way between them, the even one. -/
def nearer (q : Rat) (below above : Decimal) : Decimal :=
  let low := q - below.value
  let high := above.value - q
  if low < high then below
  else if high < low then above
  else if below.digits % 2 = 0 then below else above

/-- The neighbour with a number of digits that reads back, if one does. -/
def withDigits? (q : Rat) (count : Nat) : Option Decimal :=
  let (below, above) := neighbours q count
  match readsAs q below, readsAs q above with
  | true, true => some (nearer q below above)
  | true, false => some below
  | false, true => some above
  | false, false => none

def maxDigits : Nat := 17

/-- The fewest digits that read back to a value above zero. -/
def shortest (q : Rat) : Decimal :=
  let found := (List.range maxDigits).findSome? fun n => withDigits? q (n + 1)
  found.getD (neighbours q maxDigits).1

/-- The digits without the zeros at their end, and the exponent of the first of them. -/
def significant (d : Decimal) : List Char × Int :=
  let all := Nat.toDigits 10 d.digits
  ((all.reverse.dropWhile (· == '0')).reverse, d.exponent + all.length - 1)

/-- An exponent with its sign and at least two digits. -/
def exponentText (e : Int) : List Char :=
  let digits := Nat.toDigits 10 e.natAbs
  (if e < 0 then '-' else '+') :: List.replicate (2 - digits.length) '0' ++ digits

/-- The text of a decimal that is not zero. -/
def text (d : Decimal) : List Char :=
  let (digits, e) := d.significant
  if -4 ≤ e ∧ e < 16 then
    if e < 0 then ['0', '.'] ++ List.replicate (-e - 1).toNat '0' ++ digits
    else
      let whole := digits.take (e.toNat + 1)
      let decimals := digits.drop (e.toNat + 1)
      whole ++ List.replicate (e.toNat + 1 - whole.length) '0' ++ ['.'] ++
        (if decimals = [] then ['0'] else decimals)
  else
    digits.take 1 ++ (if digits.length ≤ 1 then [] else '.' :: digits.drop 1) ++
      'e' :: exponentText e

end Decimal

/-- The text of a binary64 number, with words for an infinity and for what is not a number. -/
def Binary64.decimalText (infinity undefined : String) : Binary64 → String
  | finite q =>
      if q = 0 then "0.0"
      else String.ofList ((if q < 0 then ['-'] else []) ++ (Decimal.shortest q.abs).text)
  | infinite negative => (if negative then "-" else "") ++ infinity
  | nan => undefined

end Chip8
