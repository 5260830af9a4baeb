/-!
# Storage

How much can be kept at once. The length of a sequence has to fit a signed word
of sixty-four bits, and the sequence has to fit the space there is. Nothing is
reserved here; it is only decided whether it could be.
-/
namespace Chip8.Storage

inductive Error where
  /-- No word holds the length that was asked for. -/
  | uncountable
  /-- No word holds the length of bytes repeated that often. -/
  | tooManyBytes
  /-- No word holds the width that a text was to be filled to. -/
  | tooWide
  /-- There is not enough space. -/
  | exhausted
  deriving Repr, DecidableEq

def Error.message : Error → String
  | uncountable => "cannot fit 'int' into an index-sized integer"
  | tooManyBytes => "repeated bytes are too long"
  | tooWide => "Python int too large to convert to C ssize_t"
  | exhausted => ""

/-- One more than the largest length, position or width. -/
def wordLimit : Int := 0x8000000000000000

/-- Whether a signed word holds a number. -/
def fitsWord (n : Int) : Bool := -wordLimit ≤ n && n < wordLimit

/-- The bytes there are. -/
def space : Int := 0x400000000

/-- The number of entries of a sequence, each of `entrySize` bytes; less than none is none. -/
def entries (entrySize : Nat) (count : Int) : Except Error Nat :=
  if !fitsWord count then throw .uncountable
  else if space ≤ entrySize * count then throw .exhausted
  else pure count.toNat

def wordSize : Nat := 8

/-- The number of times that a pattern of bytes is repeated. -/
def repetitions (patternSize : Nat) (count : Int) : Except Error Nat :=
  if fitsWord count && wordLimit ≤ patternSize * count then throw .tooManyBytes
  else entries patternSize count

def lineWidth (width : Int) : Except Error Nat :=
  if !fitsWord width then throw .tooWide else entries 1 width

end Chip8.Storage
