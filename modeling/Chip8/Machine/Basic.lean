import Chip8.CallStack
import Chip8.Instruction.Opcode
import Chip8.Keypad
import Chip8.Layout
import Chip8.Memory
import Chip8.Pacer
import Chip8.Screen

/-!
# The machine

Registers, timers, memory, call stack, screen and keypad, with the pacer that
meters it and the opcode at hand. Registers hold bytes. The other quantities
are integers without a bound: running a program keeps them in a small range,
which is a fact about the instructions and is not built into the type.

Random bytes come from a stream outside the machine; the machine only knows how
many it has drawn.
-/
namespace Chip8

structure Machine where
  /-- The registers V0 to VF. -/
  v : Vector UInt8 registerCount
  /-- The index register. -/
  i : Int
  /-- The address of the next instruction. -/
  pc : Int
  /-- The delay timer. -/
  delay : Int
  /-- The sound timer. -/
  sound : Int
  /-- The opcode at hand. -/
  opcode : Int
  /-- Where the opcode at hand was fetched, which reports show. -/
  origin : Int
  /-- The fields of the opcode carried out last. -/
  fields : Fields
  memory : Memory memorySize
  /-- The addresses to return to. -/
  stack : CallStack Int
  screen : Screen screenWidth screenHeight
  keypad : Keypad
  pacer : Pacer
  /-- Instructions carried out since the count was last taken. -/
  ops : Nat
  /-- Random bytes drawn so far. -/
  drawn : Nat
  /-- Whether each instruction is shown before it runs. -/
  traced : Bool
  deriving DecidableEq

namespace Machine

/-- A machine that has not run, with nothing in memory. -/
def new (pacer : Pacer) (traced : Bool) : Machine where
  v := Vector.replicate registerCount 0
  i := 0
  pc := programAddress
  delay := 0
  sound := 0
  opcode := 0
  origin := programAddress
  fields := Fields.ofOpcode 0
  memory := Memory.blank memorySize
  stack := CallStack.empty stackCapacity
  screen := Screen.blank screenWidth screenHeight
  keypad := Keypad.released
  pacer := pacer
  ops := 0
  drawn := 0
  traced := traced

def reg (m : Machine) (x : Fin 16) : UInt8 := m.v[x]

def setReg (m : Machine) (x : Fin 16) (b : UInt8) : Machine := { m with v := m.v.set x b }

def firstRegister : Fin 16 := ⟨0, by decide⟩

/-- The register VF, which tells what an instruction noticed. -/
def flagRegister : Fin 16 := ⟨15, by decide⟩

def setFlag (m : Machine) (flag : Bool) : Machine :=
  m.setReg flagRegister (if flag then 1 else 0)

/-- Passes over the next instruction if a condition holds. -/
def skipIf (m : Machine) (condition : Bool) : Machine :=
  if condition then { m with pc := m.pc + 2 } else m

/-- Counts each running timer down by one. -/
def countDown (m : Machine) : Machine :=
  { m with
    delay := if 0 < m.delay then m.delay - 1 else m.delay
    sound := if 0 < m.sound then m.sound - 1 else m.sound }

/-- The buzzer sounds while the sound timer runs. -/
def sounding (m : Machine) : Bool := 0 < m.sound

end Machine
end Chip8
