/-!
# Opcodes

An opcode is any integer; its fields are taken from the low sixteen bits of its
two's complement form, whatever its sign and size.
-/
namespace Chip8

/-- The fields of an opcode: the selector in the top four bits, two register
numbers, and three immediate operands that overlap them. -/
structure Fields where
  op : Fin 16
  x : Fin 16
  y : Fin 16
  n : Fin 16
  nn : UInt8
  nnn : Fin 4096
  deriving Repr, DecidableEq

namespace Fields

/-- The fields of a sixteen-bit word. -/
def ofWord (word : Nat) : Fields where
  op := Fin.ofNat 16 (word / 4096)
  x := Fin.ofNat 16 (word / 256)
  y := Fin.ofNat 16 (word / 16)
  n := Fin.ofNat 16 word
  nn := UInt8.ofNat word
  nnn := Fin.ofNat 4096 word

def lowWord (opcode : Int) : Nat := (opcode % 65536).toNat

def ofOpcode (opcode : Int) : Fields := ofWord (lowWord opcode)

end Fields
end Chip8
