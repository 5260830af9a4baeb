/-!
# Hexadecimal text

Numbers are written with lower-case digits and no superfluous zeros; a field
has a least width, filled with zeros, and a sign counts toward that width.
Bytes are always two digits. Eight flags are written as one byte, the first of
them in its top bit; the last byte is filled with flags that are down. Nothing
here reads a number back.

A long sequence is told by its runs of equal entries instead, with their lengths.
-/
namespace Chip8.Text

def hexDigit (n : Nat) : Char :=
  if n < 10 then Char.ofNat (48 + n) else Char.ofNat (87 + n)

/-- The digits of a number, most significant first; zero is one digit. -/
def hexDigits (n : Nat) : List Char :=
  if n < 16 then [hexDigit n] else hexDigits (n / 16) ++ [hexDigit (n % 16)]
termination_by n

/-- A signed number in a field of at least `width` characters. -/
def hexField (width : Nat) (n : Int) : String :=
  let sign := if n < 0 then ['-'] else []
  let digits := hexDigits n.natAbs
  String.ofList (sign ++ List.replicate (width - sign.length - digits.length) '0' ++ digits)

/-- Two digits, the high half first. -/
def hexByte (b : UInt8) : List Char :=
  [hexDigit (b.toNat / 16), hexDigit (b.toNat % 16)]

/-- The bytes in order, two digits each. -/
def hexBytes (bytes : List UInt8) : String :=
  String.ofList (bytes.flatMap hexByte)

/-- The number whose binary digits are the flags, the first one most significant. -/
def flagsValue (flags : List Bool) : Nat :=
  flags.foldl (fun n flag => 2 * n + flag.toNat) 0

/-- The byte of the eight flags from an index on; behind the last flag all are down. -/
def flagsByte (flags : Array Bool) (start : Nat) : UInt8 :=
  UInt8.ofNat (flagsValue ((List.range 8).map fun k => flags.getD (start + k) false))

/-- The bytes of the flags, eight to a byte. -/
def packFlags (flags : Array Bool) : List UInt8 :=
  (List.range ((flags.size + 7) / 8)).map fun k => flagsByte flags (8 * k)

def hexFlags (flags : Array Bool) : String := hexBytes (packFlags flags)

/-! ## Runs -/

variable {α : Type} [DecidableEq α]

/-- Puts an entry in front of runs. -/
def extendRuns (a : α) : List (α × Nat) → List (α × Nat)
  | (b, n) :: more => if a = b then (b, n + 1) :: more else (a, 1) :: (b, n) :: more
  | [] => [(a, 1)]

/-- The runs of a sequence; neighbouring runs hold different entries. -/
def runs (xs : List α) : List (α × Nat) := xs.foldr extendRuns []

/-- The runs in order, an entry and a star before each length. -/
def runsText (entry : α → String) (xs : List α) : String :=
  String.intercalate " " ((runs xs).map fun (a, n) => entry a ++ "*" ++ toString n)

end Chip8.Text
