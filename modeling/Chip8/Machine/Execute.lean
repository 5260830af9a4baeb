import Chip8.Instruction.Basic
import Chip8.Machine.Basic

/-!
# What the instructions do

An instruction is an activity of the machine. One that fails leaves the machine as
it was when the fault arose, with all that was done before. Whatever can fail is
therefore done first: no instruction changes anything before it fails.

Where an instruction sets VF and another register, VF is written first, so that
a result stored in VF wins over the flag. Sums and differences are taken from
the operands as they were. A shift is different: it reads the register it shifts
after the flag was written.
-/
namespace Chip8

/-- Why an instruction, or the fetching of one, failed. -/
inductive Fault where
  /-- There is no whole instruction at the program counter. -/
  | pastEnd (pc : Int)
  | memory (error : Memory.Error)
  | stack (error : CallStack.Error)
  /-- A timer that a register cannot hold. -/
  | notAByte
  deriving Repr, DecidableEq

def Fault.message : Fault → String
  | pastEnd pc => "Program counter 0x" ++ Text.hexField 4 pc ++ " is past the end of memory"
  | memory error => error.message
  | stack error => error.message
  | notAByte => "memoryview: invalid value for format 'B'"

/-- A stream of random bytes, by number. -/
abbrev RandomBytes := Nat → UInt8

/-- The pixels that a sprite inverts when its top left corner is at a place: a
byte per row, the leftmost pixel in its top bit. -/
def spriteCells (left top : Nat) (rows : List UInt8) : List (Int × Int) :=
  rows.zipIdx.flatMap fun (row, r) =>
    (List.range 8).filterMap fun c =>
      if row.toNat.testBit (7 - c) then some ((left + c : Nat), (top + r : Nat)) else none

def decimalDigits (b : UInt8) : Array UInt8 := #[b / 100, b / 10 % 10, b % 10]

abbrev MachineM := EStateM Fault Machine

namespace Machine

/-- An activity of memory alone. -/
def onMemory {α : Type} (x : EStateM Memory.Error (Memory memorySize) α) : MachineM α := fun m =>
  match x m.memory with
  | .ok a memory => .ok a { m with memory }
  | .error e memory => .error (.memory e) { m with memory }

def onStack {α : Type} (x : EStateM CallStack.Error (CallStack Int) α) : MachineM α := fun m =>
  match x m.stack with
  | .ok a stack => .ok a { m with stack }
  | .error e stack => .error (.stack e) { m with stack }

/-- Goes to an address, remembering the one to come back to. -/
def callTo (address : Int) : MachineM Unit := do
  onStack (CallStack.push (← get).pc)
  modify ({ · with pc := address })

def returnFromCall : MachineM Unit := do
  let address ← onStack CallStack.pop
  modify ({ · with pc := address })

/-- Adds one register to another; the flag tells a carry. -/
def addRegisters (m : Machine) (x y : Fin 16) : Machine :=
  let sum := (m.reg x).toNat + (m.reg y).toNat
  (m.setFlag (255 < sum)).setReg x (UInt8.ofNat sum)

/-- Stores a difference of two bytes; the flag tells that nothing was borrowed. -/
def storeDifference (m : Machine) (x : Fin 16) (a b : UInt8) : Machine :=
  (m.setFlag (b ≤ a)).setReg x (a - b)

def shiftRight (m : Machine) (x : Fin 16) : Machine :=
  let m := m.setFlag ((m.reg x).toNat.testBit 0)
  m.setReg x (m.reg x >>> 1)

def shiftLeft (m : Machine) (x : Fin 16) : Machine :=
  let m := m.setFlag ((m.reg x).toNat.testBit 7)
  m.setReg x (m.reg x <<< 1)

def readAtIndex (length : Nat) : MachineM (Array UInt8) := do
  let m ← get
  ofExcept ((m.memory.readBlock m.i length).mapError Fault.memory)

/-- Draws a sprite of `n` rows. Its corner wraps onto the screen, the rest of it
does not. Every row is read before anything is drawn; the flag tells whether a
lit pixel was put out. -/
def drawSprite (x y n : Fin 16) : MachineM Unit := do
  let m ← get
  let left := (m.reg x).toNat % screenWidth
  let top := (m.reg y).toNat % screenHeight
  let rows ← readAtIndex n.val
  modify (·.setFlag false)
  let (hit, screen) := m.screen.invertAll (spriteCells left top rows.toList)
  modify ({ · with screen })
  if hit then modify (·.setFlag true)

/-- Stores the lowest key that is down, or stays at this instruction while none is. -/
def waitForKey (m : Machine) (x : Fin 16) : Machine :=
  match m.keypad.firstDown? with
  | some key => m.setReg x (UInt8.ofNat key.val)
  | none => { m with pc := m.pc - 2 }

def getDelay (x : Fin 16) : MachineM Unit := do
  let m ← get
  if 0 ≤ m.delay ∧ m.delay ≤ 255 then set (m.setReg x (UInt8.ofNat m.delay.toNat))
  else throw .notAByte

/-- Adds a register to the index; the flag tells that the sum left the address range. -/
def addToIndex (m : Machine) (x : Fin 16) : Machine :=
  let sum := m.i + (m.reg x).toNat
  { m.setFlag (0xFFF < sum) with i := sum % 0x10000 }

/-- Writes a block at the index. -/
def store (block : Array UInt8) : MachineM Unit := do
  onMemory (Memory.writeBlock (← get).i block)

/-- Fills the registers up to `x` from memory at the index. -/
def loadRegisters (x : Fin 16) : MachineM Unit := do
  let block ← readAtIndex (x.val + 1)
  if block.size = x.val + 1 then
    modify fun m =>
      { m with v := m.v.mapIdx fun k b => if k ≤ x.val then block.getD k b else b }
  else throw (.memory .unequalBlock)

end Machine

/-- Carries out an instruction. The program counter is already past it. -/
def Instruction.execute (stream : RandomBytes) : Instruction → MachineM Unit
  | clear => modify fun m => { m with screen := m.screen.clear }
  | ret => Machine.returnFromCall
  | jump a => modify ({ · with pc := a.val })
  | call a => Machine.callTo a.val
  | skipIfByte x k => modify fun m => m.skipIf (m.reg x == k)
  | skipUnlessByte x k => modify fun m => m.skipIf (m.reg x != k)
  | skipIfSame x y => modify fun m => m.skipIf (m.reg x == m.reg y)
  | skipUnlessSame x y => modify fun m => m.skipIf (m.reg x != m.reg y)
  | setByte x k => modify fun m => m.setReg x k
  | addByte x k => modify fun m => m.setReg x (m.reg x + k)
  | copy x y => modify fun m => m.setReg x (m.reg y)
  | or x y => modify fun m => m.setReg x (m.reg x ||| m.reg y)
  | and x y => modify fun m => m.setReg x (m.reg x &&& m.reg y)
  | xor x y => modify fun m => m.setReg x (m.reg x ^^^ m.reg y)
  | add x y => modify fun m => m.addRegisters x y
  | subtract x y => modify fun m => m.storeDifference x (m.reg x) (m.reg y)
  | subtractFrom x y => modify fun m => m.storeDifference x (m.reg y) (m.reg x)
  | shiftRight x => modify fun m => m.shiftRight x
  | shiftLeft x => modify fun m => m.shiftLeft x
  | setIndex a => modify ({ · with i := a.val })
  | jumpFromV0 a => modify fun m =>
      { m with pc := a.val + (m.reg Machine.firstRegister).toNat }
  | random x k => modify fun m =>
      { m.setReg x (stream m.drawn &&& k) with drawn := m.drawn + 1 }
  | draw x y n => Machine.drawSprite x y n
  | skipIfKey x => modify fun m => m.skipIf (m.keypad.isDown (m.reg x).toNat)
  | skipUnlessKey x => modify fun m => m.skipIf (!m.keypad.isDown (m.reg x).toNat)
  | getDelay x => Machine.getDelay x
  | waitForKey x => modify fun m => m.waitForKey x
  | setDelay x => modify fun m => { m with delay := (m.reg x).toNat }
  | setSound x => modify fun m => { m with sound := (m.reg x).toNat }
  | addToIndex x => modify fun m => m.addToIndex x
  | pointAtGlyph x => modify fun m =>
      { m with i := fontAddress + glyphSize * (m.reg x).toNat }
  | storeDigits x => do Machine.store (decimalDigits ((← get).reg x))
  | storeRegisters x => do Machine.store ((← get).v.toArray.extract 0 (x.val + 1))
  | loadRegisters x => Machine.loadRegisters x

end Chip8
