import Chip8.Instruction.Basic

/-!
# Looking an opcode up

One table holds the instructions, and a look-up begins under the selector of the
opcode. Ten selectors stand for an instruction. The others are aliases that send
back to the table: 5, 8 and 9 under the opcode with its two middle digits masked
out, E and F under the opcode without its second digit, and 0 under the opcode as
a whole. Opcodes below 0x10 are not looked up as a whole, because those keys are
the selectors.

Nothing in the shape of a look-up says that it ends, so it may look at so many keys
and no more. Two are enough for every opcode.
-/
namespace Chip8.Instruction

/-- What the table holds under a key. -/
inductive Entry where
  | instruction (withFields : Fields → Instruction)
  /-- An alias for what is found under the masked opcode. -/
  | masked (mask : Nat)
  /-- An alias for what is found under the opcode itself. -/
  | whole

def listed? : Nat → Option Entry
  | 0x0 => some .whole
  | 0x1 => some (.instruction fun f => jump f.nnn)
  | 0x2 => some (.instruction fun f => call f.nnn)
  | 0x3 => some (.instruction fun f => skipIfByte f.x f.nn)
  | 0x4 => some (.instruction fun f => skipUnlessByte f.x f.nn)
  | 0x5 => some (.masked 0xF00F)
  | 0x6 => some (.instruction fun f => setByte f.x f.nn)
  | 0x7 => some (.instruction fun f => addByte f.x f.nn)
  | 0x8 => some (.masked 0xF00F)
  | 0x9 => some (.masked 0xF00F)
  | 0xA => some (.instruction fun f => setIndex f.nnn)
  | 0xB => some (.instruction fun f => jumpFromV0 f.nnn)
  | 0xC => some (.instruction fun f => random f.x f.nn)
  | 0xD => some (.instruction fun f => draw f.x f.y f.n)
  | 0xE => some (.masked 0xF0FF)
  | 0xF => some (.masked 0xF0FF)
  -- The whole opcode.
  | 0x00E0 => some (.instruction fun _ => clear)
  | 0x00EE => some (.instruction fun _ => ret)
  -- The selector and the last digit.
  | 0x5000 => some (.instruction fun f => skipIfSame f.x f.y)
  | 0x8000 => some (.instruction fun f => copy f.x f.y)
  | 0x8001 => some (.instruction fun f => or f.x f.y)
  | 0x8002 => some (.instruction fun f => and f.x f.y)
  | 0x8003 => some (.instruction fun f => xor f.x f.y)
  | 0x8004 => some (.instruction fun f => add f.x f.y)
  | 0x8005 => some (.instruction fun f => subtract f.x f.y)
  | 0x8006 => some (.instruction fun f => shiftRight f.x)
  | 0x8007 => some (.instruction fun f => subtractFrom f.x f.y)
  | 0x800E => some (.instruction fun f => shiftLeft f.x)
  | 0x9000 => some (.instruction fun f => skipUnlessSame f.x f.y)
  -- The selector and the last two digits.
  | 0xE09E => some (.instruction fun f => skipIfKey f.x)
  | 0xE0A1 => some (.instruction fun f => skipUnlessKey f.x)
  | 0xF007 => some (.instruction fun f => getDelay f.x)
  | 0xF00A => some (.instruction fun f => waitForKey f.x)
  | 0xF015 => some (.instruction fun f => setDelay f.x)
  | 0xF018 => some (.instruction fun f => setSound f.x)
  | 0xF01E => some (.instruction fun f => addToIndex f.x)
  | 0xF029 => some (.instruction fun f => pointAtGlyph f.x)
  | 0xF033 => some (.instruction fun f => storeDigits f.x)
  | 0xF055 => some (.instruction fun f => storeRegisters f.x)
  | 0xF065 => some (.instruction fun f => loadRegisters f.x)
  | _ => none

/-- Where an alias sends a look-up of an opcode. -/
def Entry.nextKey? (opcode : Int) : Entry → Option Nat
  | instruction _ => none
  | masked mask => some (Fields.lowWord opcode &&& mask)
  | whole => if opcode < 0x10 then none else some opcode.toNat

/-- What a look-up under a key comes to, an instruction or nothing known, if it ends
within a number of keys. -/
def seek (opcode : Int) : Nat → Nat → Option (Option Instruction)
  | 0, _ => none
  | limit + 1, key =>
      match listed? key with
      | none => some none
      | some (.instruction withFields) => some (some (withFields (Fields.ofOpcode opcode)))
      | some sender =>
          match sender.nextKey? opcode with
          | none => some none
          | some key => seek opcode limit key

/-- The instruction that is carried out for an opcode, if there is one. -/
def find? (opcode : Int) : Option Instruction :=
  (seek opcode 2 (Fields.ofOpcode opcode).op.val).join

end Chip8.Instruction
