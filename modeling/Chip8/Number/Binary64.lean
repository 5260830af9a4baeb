/-!
# Binary64 numbers

A binary64 number is an exact rational, an infinity, or not a number. Every
operation computes the exact result and rounds it once, to the nearest value
with 53 significant bits and an exponent of at least -1074, a tie going to the
even neighbour; a result too large for the format is an infinity. The sign of a
zero is not kept: no operation here divides, so it never reaches a result. The
type does not force a rational to lie on the grid; the operations do.
-/
namespace Chip8

inductive Binary64 where
  | finite (value : Rat)
  | infinite (negative : Bool)
  | nan
  deriving Repr, DecidableEq

namespace Binary64

/-- The nearest integer; a value half way between two goes to the even one. -/
def nearestEven (q : Rat) : Int :=
  let low := q.floor
  let part := q - low
  if part < 1 / 2 then low
  else if 1 / 2 < part then low + 1
  else if low % 2 = 0 then low else low + 1

/-- The exponent of the largest power of two that is at most the magnitude of a nonzero value. -/
def binaryExponent (q : Rat) : Int :=
  let guess : Int := (q.num.natAbs.log2 : Int) - (q.den.log2 : Int)
  if q.abs < (2 : Rat) ^ guess then guess - 1 else guess

/-- The exponent of the last of the 53 bits that a value keeps. -/
def gridExponent (q : Rat) : Int :=
  if q = 0 then -1074 else max (-1074) (binaryExponent q - 52)

/-- The grid value nearest to an exact one, before the range is looked at. -/
def onGrid (q : Rat) : Rat :=
  let step := (2 : Rat) ^ gridExponent q
  (nearestEven (q / step) : Rat) * step

/-- The binary64 number nearest to an exact value. -/
def round (q : Rat) : Binary64 :=
  let r := onGrid q
  if r.abs < (2 : Rat) ^ (1024 : Nat) then finite r else infinite (q < 0)

def zero : Binary64 := finite 0

def neg : Binary64 → Binary64
  | finite q => finite (-q)
  | infinite s => infinite (!s)
  | nan => nan

def add : Binary64 → Binary64 → Binary64
  | finite a, finite b => round (a + b)
  | infinite s, infinite t => if s = t then infinite s else nan
  | infinite s, finite _ => infinite s
  | finite _, infinite t => infinite t
  | nan, _ => nan
  | _, nan => nan

def sub (a b : Binary64) : Binary64 := add a b.neg

def mul : Binary64 → Binary64 → Binary64
  | finite a, finite b => round (a * b)
  | infinite s, infinite t => infinite (s != t)
  | infinite s, finite b => if b = 0 then nan else infinite (s != decide (b < 0))
  | finite a, infinite t => if a = 0 then nan else infinite (decide (a < 0) != t)
  | nan, _ => nan
  | _, nan => nan

/-- The order of the values. Nothing is less than, or more than, what is not a number. -/
def lt : Binary64 → Binary64 → Bool
  | finite a, finite b => a < b
  | infinite s, infinite t => s && !t
  | infinite s, finite _ => s
  | finite _, infinite t => !t
  | nan, _ => false
  | _, nan => false

/-- At most, which is also false of what is not a number. -/
def le : Binary64 → Binary64 → Bool
  | finite a, finite b => a ≤ b
  | infinite s, infinite t => s || !t
  | infinite s, finite _ => s
  | finite _, infinite t => !t
  | nan, _ => false
  | _, nan => false

/-- A word with only the sign in it, which is its top bit. -/
def signUnit : Nat := 0x8000000000000000

/-- A word with only the last bit of the exponent in it; below lie 52 bits of fraction. -/
def exponentUnit : Nat := 0x10000000000000

/-- The number that a 64-bit word stands for. -/
def ofBits (word : Nat) : Binary64 :=
  let negative := word / signUnit % 2 = 1
  let exponent := word / exponentUnit % 2048
  let fraction := word % exponentUnit
  if exponent = 2047 then
    if fraction = 0 then infinite negative else nan
  else
    let significand : Nat := if exponent = 0 then fraction else exponentUnit + fraction
    let magnitude : Rat := (significand : Rat) * (2 : Rat) ^ ((max exponent 1 : Nat) - 1075 : Int)
    finite (if negative then -magnitude else magnitude)

/-- The 64-bit word of a number on the grid; zero is written without a sign. -/
def toBits : Binary64 → Nat
  | nan => 2047 * exponentUnit + exponentUnit / 2
  | infinite s => (if s then signUnit else 0) + 2047 * exponentUnit
  | finite q =>
      let e := gridExponent q
      let significand := (nearestEven (q.abs / (2 : Rat) ^ e)).natAbs
      let magnitude :=
        if significand < exponentUnit then significand
        else (e + 1075).toNat * exponentUnit + (significand - exponentUnit)
      (if q < 0 then signUnit else 0) + magnitude

end Binary64
end Chip8
