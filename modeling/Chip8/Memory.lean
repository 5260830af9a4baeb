import Chip8.Storage
import Chip8.Text.Hex

/-!
# Memory

A flat block of bytes whose size never changes. A single byte is reached by its
address. A block is reached by its first address and its length, and only its
last address is checked: a block that begins below zero and ends inside memory
passes the check, and then names positions counted back from the end. Reading
such a block gives whatever lies between the two positions; writing it is
refused, because the positions never span as many bytes as the block holds.
-/
namespace Chip8

structure Memory (size : Nat) where
  bytes : Vector UInt8 size
  deriving DecidableEq

namespace Memory

inductive Error where
  /-- The address lies outside `0..top`. -/
  | outside (address top : Int)
  /-- The block is not as long as the positions it should fill. -/
  | unequalBlock
  deriving Repr, DecidableEq

def Error.message : Error → String
  | outside address top =>
      "Memory access at 0x" ++ Text.hexField 4 address ++ " is outside 0x000-0x" ++
        Text.hexField 3 top
  | unequalBlock => "memoryview assignment: lvalue and rvalue have different structures"

inductive SizeError where
  /-- The size is below zero. -/
  | negative
  | storage (error : Storage.Error)
  deriving Repr, DecidableEq

def SizeError.message : SizeError → String
  | negative => "negative count"
  | storage error => error.message

/-- The size of a memory, if there can be one of that size. -/
def checkSize (size : Int) : Except SizeError Nat :=
  if size < 0 && Storage.fitsWord size then throw .negative
  else (Storage.entries 1 size).mapError SizeError.storage

variable {size : Nat}

/-- Memory in which every byte is zero. -/
def blank (size : Nat) : Memory size := ⟨Vector.replicate size 0⟩

/-- The last address, which is below zero when there is no byte at all. -/
def top (_ : Memory size) : Int := (size : Int) - 1

def check (m : Memory size) (address : Int) : Except Error Unit :=
  if address < 0 ∨ address > m.top then throw (.outside address m.top) else pure ()

/-- The byte at an address, or nothing outside memory. -/
def get? (m : Memory size) (address : Int) : Option UInt8 :=
  if address < 0 then none else m.bytes[address.toNat]?

def read (m : Memory size) (address : Int) : Except Error UInt8 :=
  match m.get? address with
  | some b => pure b
  | none => throw (.outside address m.top)

/-- The position that an end of a block names: below zero it counts back from
the end of memory, and beyond either end it is that end. -/
def position (size : Nat) (address : Int) : Nat :=
  if address < 0 then (address + size).toNat else min address.toNat size

/-- The `length` bytes from an address on, as far as the two ends of the block span them. -/
def readBlock (m : Memory size) (address length : Int) : Except Error (Array UInt8) := do
  m.check (address + length - 1)
  pure (m.bytes.toArray.extract (position size address) (position size (address + length)))

/-- Bytes with others laid over them from a position on. -/
def overlay (bytes : Vector UInt8 size) (start : Nat) : List UInt8 → Vector UInt8 size
  | [] => bytes
  | b :: rest => overlay (bytes.setIfInBounds start b) (start + 1) rest

/-- A position holds what was laid over it, or what it held before. -/
theorem getElem_overlay (bytes : Vector UInt8 size) (start : Nat) (block : List UInt8)
    (k : Nat) (hk : k < size) :
    (overlay bytes start block)[k] =
      if start ≤ k then block[k - start]?.getD bytes[k] else bytes[k] := by
  induction block generalizing bytes start with
  | nil => simp [overlay]
  | cons b rest ih =>
      rw [overlay, ih]
      by_cases h : start = k
      · subst h
        simp [show ¬ start + 1 ≤ start by omega]
      · rw [Vector.getElem_setIfInBounds_ne _ h]
        by_cases hle : start ≤ k
        · have hsucc : start + 1 ≤ k := by omega
          obtain ⟨d, hd⟩ : ∃ d, k - start = d + 1 := ⟨k - start - 1, by omega⟩
          have hd' : k - (start + 1) = d := by omega
          simp [hle, hsucc, hd, hd']
        · have hsucc : ¬ start + 1 ≤ k := by omega
          simp [hle, hsucc]

/-- Writes a block over the positions that its two ends span. -/
def writeBlock (address : Int) (block : Array UInt8) : EStateM Error (Memory size) Unit := do
  let m ← get
  ofExcept (m.check (address + block.size - 1))
  let start := position size address
  let stop := position size (address + block.size)
  if stop - start = block.size then set (Memory.mk (overlay m.bytes start block.toList))
  else throw .unequalBlock

/-- The two bytes from an address on, read as one big-endian number. -/
def word? (m : Memory size) (address : Int) : Option Nat := do
  let high ← m.get? address
  let low ← m.get? (address + 1)
  pure (high.toNat * 256 + low.toNat)

end Memory
end Chip8
