/-!
# Integers in text

An integer is written as blanks, a sign or none, digits of any script, and
blanks. A single underscore may stand between two digits. More than 4300 digits
are refused.

Every script with positional decimal digits has ten of them in a row, from zero
to nine. The table follows Unicode 14.0.
-/
namespace Chip8.Text

/-- The code points of the digits zero. -/
def digitZeros : Array Nat := #[
  48, 1632, 1776, 1984, 2406, 2534, 2662, 2790, 2918, 3046, 3174, 3302, 3430, 3558, 3664, 3792,
  3872, 4160, 4240, 6112, 6160, 6470, 6608, 6784, 6800, 6992, 7088, 7232, 7248, 42528, 43216,
  43264, 43472, 43504, 43600, 44016, 65296, 66720, 68912, 69734, 69872, 69942, 70096, 70384,
  70736, 70864, 71248, 71360, 71472, 71904, 72016, 72784, 73040, 73120, 92768, 92864, 93008,
  120782, 120792, 120802, 120812, 120822, 123200, 123632, 125264, 130032]

/-- The value of a decimal digit of any script. -/
def digitValue? (c : Char) : Option Nat :=
  (digitZeros.find? fun start => start ≤ c.toNat && c.toNat < start + 10).map (c.toNat - ·)

/-- The blanks that may surround an integer. -/
def isBlank (c : Char) : Bool :=
  let n := c.toNat
  (9 ≤ n && n ≤ 13) || n == 32 || n == 0x85 || n == 0xA0 || n == 0x1680 ||
    (0x2000 ≤ n && n ≤ 0x200A) || n == 0x2028 || n == 0x2029 || n == 0x202F || n == 0x205F ||
    n == 0x3000

/-- The text between the blanks at its two ends. -/
def trimBlanks (cs : List Char) : List Char :=
  ((cs.dropWhile isBlank).reverse.dropWhile isBlank).reverse

/-- The values of digits with at most one underscore between any two. -/
def digitValues? : List Char → Option (List Nat)
  | [] => none
  | [c] => do pure [← digitValue? c]
  | c :: '_' :: rest => do pure ((← digitValue? c) :: (← digitValues? rest))
  | c :: rest => do pure ((← digitValue? c) :: (← digitValues? rest))

def ofDigits (digits : List Nat) : Nat := digits.foldl (fun n d => n * 10 + d) 0

def maxDigits : Nat := 4300

def readNat? (cs : List Char) : Option Nat := do
  let digits ← digitValues? cs
  if digits.length ≤ maxDigits then pure (ofDigits digits) else none

/-- The integer that a text is, if it is one. -/
def readInt? (cs : List Char) : Option Int :=
  match trimBlanks cs with
  | '-' :: rest => (readNat? rest).map fun n => -(n : Int)
  | '+' :: rest => (readNat? rest).map Int.ofNat
  | cs => (readNat? cs).map Int.ofNat

end Chip8.Text
