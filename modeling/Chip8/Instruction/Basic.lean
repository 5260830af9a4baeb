import Chip8.Instruction.Opcode

/-!
# Instructions

The 34 instructions of the machine, with their operands, and the opcodes that
stand for them. An opcode is known by its selector alone, by its selector and
last digit (selectors 5, 8 and 9), by its selector and last two digits (E and
F), or as a whole (selector 0). The last rule looks at the opcode as an integer:
one that merely ends in 00E0 is not known.
-/
namespace Chip8

/-- Operands are registers `x` and `y`, a byte `k`, a small number `n` and an address `a`. -/
inductive Instruction where
  | clear
  | ret
  | jump (a : Fin 4096)
  | call (a : Fin 4096)
  | skipIfByte (x : Fin 16) (k : UInt8)
  | skipUnlessByte (x : Fin 16) (k : UInt8)
  | skipIfSame (x y : Fin 16)
  | setByte (x : Fin 16) (k : UInt8)
  | addByte (x : Fin 16) (k : UInt8)
  | copy (x y : Fin 16)
  | or (x y : Fin 16)
  | and (x y : Fin 16)
  | xor (x y : Fin 16)
  | add (x y : Fin 16)
  | subtract (x y : Fin 16)
  | shiftRight (x : Fin 16)
  | subtractFrom (x y : Fin 16)
  | shiftLeft (x : Fin 16)
  | skipUnlessSame (x y : Fin 16)
  | setIndex (a : Fin 4096)
  | jumpFromV0 (a : Fin 4096)
  | random (x : Fin 16) (k : UInt8)
  | draw (x y n : Fin 16)
  | skipIfKey (x : Fin 16)
  | skipUnlessKey (x : Fin 16)
  | getDelay (x : Fin 16)
  | waitForKey (x : Fin 16)
  | setDelay (x : Fin 16)
  | setSound (x : Fin 16)
  | addToIndex (x : Fin 16)
  | pointAtGlyph (x : Fin 16)
  | storeDigits (x : Fin 16)
  | storeRegisters (x : Fin 16)
  | loadRegisters (x : Fin 16)
  deriving Repr, DecidableEq

namespace Instruction

/-- The instructions with selector 8, which the last digit tells apart. -/
def arithmetic? (x y : Fin 16) : Nat → Option Instruction
  | 0x0 => some (copy x y)
  | 0x1 => some (or x y)
  | 0x2 => some (and x y)
  | 0x3 => some (xor x y)
  | 0x4 => some (add x y)
  | 0x5 => some (subtract x y)
  | 0x6 => some (shiftRight x)
  | 0x7 => some (subtractFrom x y)
  | 0xE => some (shiftLeft x)
  | _ => none

/-- The instructions with selector F, which the last two digits tell apart. -/
def peripheral? (x : Fin 16) : Nat → Option Instruction
  | 0x07 => some (getDelay x)
  | 0x0A => some (waitForKey x)
  | 0x15 => some (setDelay x)
  | 0x18 => some (setSound x)
  | 0x1E => some (addToIndex x)
  | 0x29 => some (pointAtGlyph x)
  | 0x33 => some (storeDigits x)
  | 0x55 => some (storeRegisters x)
  | 0x65 => some (loadRegisters x)
  | _ => none

/-- The instruction that an opcode stands for, if it stands for one. The last case is selector F. -/
def ofOpcode? (opcode : Int) : Option Instruction :=
  let f := Fields.ofOpcode opcode
  match f.op.val with
  | 0x0 => if opcode = 0x00E0 then some clear else if opcode = 0x00EE then some ret else none
  | 0x1 => some (jump f.nnn)
  | 0x2 => some (call f.nnn)
  | 0x3 => some (skipIfByte f.x f.nn)
  | 0x4 => some (skipUnlessByte f.x f.nn)
  | 0x5 => if f.n.val = 0 then some (skipIfSame f.x f.y) else none
  | 0x6 => some (setByte f.x f.nn)
  | 0x7 => some (addByte f.x f.nn)
  | 0x8 => arithmetic? f.x f.y f.n.val
  | 0x9 => if f.n.val = 0 then some (skipUnlessSame f.x f.y) else none
  | 0xA => some (setIndex f.nnn)
  | 0xB => some (jumpFromV0 f.nnn)
  | 0xC => some (random f.x f.nn)
  | 0xD => some (draw f.x f.y f.n)
  | 0xE =>
      if f.nn = 0x9E then some (skipIfKey f.x)
      else if f.nn = 0xA1 then some (skipUnlessKey f.x)
      else none
  | _ => peripheral? f.x f.nn.toNat

end Instruction
end Chip8
