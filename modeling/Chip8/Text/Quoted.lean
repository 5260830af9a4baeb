import Chip8.Text.Hex
import Chip8.Text.Printable

/-!
# Quoted text

Two ways to show a text between quotes. In a message, printable characters stand
for themselves, and single quotes are used unless the text holds a single quote
and no double one. In a transcript, the quotes are double and everything but
printable ASCII is escaped in units of sixteen bits.
-/
namespace Chip8.Text

/-- A letter and a fixed number of digits after a backslash. -/
def numericEscape (letter : Char) (width n : Nat) : List Char :=
  '\\' :: letter :: (hexField width n).toList

/-- One character of a message between quotes. -/
def messageChar (quote c : Char) : List Char :=
  if c = quote ∨ c = '\\' then ['\\', c]
  else if c = '\t' then ['\\', 't']
  else if c = '\n' then ['\\', 'n']
  else if c = '\r' then ['\\', 'r']
  else if isPrintable c then [c]
  else if c.toNat ≤ 0xFF then numericEscape 'x' 2 c.toNat
  else if c.toNat ≤ 0xFFFF then numericEscape 'u' 4 c.toNat
  else numericEscape 'U' 8 c.toNat

def quoteInMessage (s : String) : String :=
  let cs := s.toList
  let quote := if cs.contains '\'' && !cs.contains '"' then '"' else '\''
  String.ofList (quote :: cs.flatMap (messageChar quote) ++ [quote])

/-- The units of sixteen bits of a character: one, or two above U+FFFF. -/
def units16 (c : Char) : List Nat :=
  let n := c.toNat
  if n < 0x10000 then [n]
  else [0xD800 + (n - 0x10000) / 0x400, 0xDC00 + (n - 0x10000) % 0x400]

/-- One character of a transcript between quotes. -/
def transcriptChar (c : Char) : List Char :=
  if c = '"' ∨ c = '\\' then ['\\', c]
  else if c = '\n' then ['\\', 'n']
  else if c = '\r' then ['\\', 'r']
  else if c = '\t' then ['\\', 't']
  else if c.toNat = 8 then ['\\', 'b']
  else if c.toNat = 12 then ['\\', 'f']
  else if 32 ≤ c.toNat ∧ c.toNat ≤ 126 then [c]
  else (units16 c).flatMap (numericEscape 'u' 4)

def quoteInTranscript (s : String) : String :=
  String.ofList ('"' :: s.toList.flatMap transcriptChar ++ ['"'])

end Chip8.Text
