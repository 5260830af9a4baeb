import Chip8.Instruction.Basic
import Chip8.Text.Hex

/-!
# Mnemonics

The decoded form of an instruction, as traces and reports show it.
-/
namespace Chip8.Instruction

def registerName (x : Fin 16) : String := "V" ++ Text.hexField 1 x.val

/-- An operand of at least `width` digits. -/
def operand (width n : Nat) : String := "0x" ++ Text.hexField width n

def onRegister (name : String) (x : Fin 16) : String := name ++ " " ++ registerName x

def onRegisters (name : String) (x y : Fin 16) : String :=
  onRegister name x ++ ", " ++ registerName y

def withByte (name : String) (x : Fin 16) (k : UInt8) : String :=
  onRegister name x ++ ", " ++ operand 2 k.toNat

def mnemonic : Instruction → String
  | clear => "CLS"
  | ret => "RET"
  | jump a => "JP " ++ operand 3 a.val
  | call a => "CALL " ++ operand 3 a.val
  | skipIfByte x k => withByte "SE" x k
  | skipUnlessByte x k => withByte "SNE" x k
  | skipIfSame x y => onRegisters "SE" x y
  | setByte x k => withByte "LD" x k
  | addByte x k => withByte "ADD" x k
  | copy x y => onRegisters "LD" x y
  | or x y => onRegisters "OR" x y
  | and x y => onRegisters "AND" x y
  | xor x y => onRegisters "XOR" x y
  | add x y => onRegisters "ADD" x y
  | subtract x y => onRegisters "SUB" x y
  | shiftRight x => onRegister "SHR" x
  | subtractFrom x y => onRegisters "SUBN" x y
  | shiftLeft x => onRegister "SHL" x
  | skipUnlessSame x y => onRegisters "SNE" x y
  | setIndex a => "LD I, " ++ operand 3 a.val
  | jumpFromV0 a => "JP V0, " ++ operand 3 a.val
  | random x k => withByte "RND" x k
  | draw x y n => onRegisters "DRW" x y ++ ", " ++ operand 1 n.val
  | skipIfKey x => onRegister "SKP" x
  | skipUnlessKey x => onRegister "SKNP" x
  | getDelay x => onRegister "LD" x ++ ", DT"
  | waitForKey x => onRegister "LD" x ++ ", K"
  | setDelay x => onRegister "LD DT," x
  | setSound x => onRegister "LD ST," x
  | addToIndex x => onRegister "ADD I," x
  | pointAtGlyph x => onRegister "LD F," x
  | storeDigits x => onRegister "LD B," x
  | storeRegisters x => onRegister "LD [I]," x
  | loadRegisters x => onRegister "LD" x ++ ", [I]"

end Chip8.Instruction
