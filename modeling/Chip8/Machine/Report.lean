import Chip8.Instruction.Lookup
import Chip8.Instruction.Mnemonic
import Chip8.Machine.Execute
import Chip8.Remark

/-!
# Traces and crash reports

A state line describes the machine just before an instruction: the registers
from VF down to V0, the index, the timers, where the instruction was fetched,
the opcode and its decoded form. A dump adds the call stack. A crash report
wraps a dump in the reason for the halt.
-/
namespace Chip8

/-- The name and version that reports and the banner begin with. -/
def programTitle : String := "MonoChip Interpreter"

def introduction : String := programTitle ++ " V1.0.0 -- "

namespace Machine

/-- The state of the machine in one line, with a text for the instruction. -/
def stateLine (m : Machine) (instruction : String) : String :=
  "V: 0x" ++ Text.hexBytes m.v.toList.reverse ++
    " I: 0x" ++ Text.hexField 4 m.i ++
    " DT: 0x" ++ Text.hexField 2 m.delay ++
    " ST: 0x" ++ Text.hexField 2 m.sound ++
    " PC: 0x" ++ Text.hexField 3 m.origin ++
    " OP: 0x" ++ Text.hexField 4 m.opcode ++
    " IN: " ++ instruction

/-- The depth of the call stack and every return address, oldest first. -/
def stackLines (m : Machine) : String :=
  let addresses := m.stack.items.toList.map fun a => " 0x" ++ Text.hexField 3 a
  "SP: " ++ toString m.stack.depth ++ "\nStack:" ++
    (if addresses.isEmpty then " (Empty)" else String.join addresses)

/-- The state line and the call stack. -/
def dump (m : Machine) (instruction : String) : String :=
  m.stateLine instruction ++ "\n" ++ m.stackLines

/-- Program counter, index, registers, timers and depth of the call stack, in decimal. -/
def statusLine (m : Machine) : String :=
  toString m.pc ++ " " ++ toString m.i ++ " " ++ Text.hexBytes m.v.toList ++ " " ++
    toString m.delay ++ " " ++ toString m.sound ++ " " ++ toString m.stack.depth

/-- What is said when the opcode at hand is carried out: that it is passed over
if it is unknown, and otherwise, if instructions are traced, its state line. -/
def remark? (m : Machine) : Option Remark :=
  match Instruction.find? m.opcode with
  | none => some (.skipped m.opcode m.origin)
  | some instruction =>
      if m.traced then some (.printed (m.stateLine instruction.mnemonic)) else none

end Machine

inductive HaltKind where
  | outOfBounds
  | stackOverflow
  | stackUnderflow
  deriving Repr, DecidableEq

structure CrashReport where
  dump : String
  reason : String
  opcode : Int
  address : Int
  deriving Repr, DecidableEq

def CrashReport.message (r : CrashReport) : String :=
  "Emulation halted.\n\n" ++ introduction ++ "Debug info:\n" ++ r.dump ++ "\n\n" ++ r.reason ++
    " (opcode 0x" ++ Text.hexField 4 r.opcode ++ " at address 0x" ++
    Text.hexField 3 r.address ++ ")."

inductive Stop where
  /-- The program went wrong, and the machine reports it. -/
  | halted (kind : HaltKind) (report : CrashReport)
  /-- A fault that is passed on as it is. -/
  | faulted (fault : Fault)
  /-- A key snapshot of the wrong length. -/
  | badSnapshot (count : Nat)
  /-- The pacer could not tell how many instructions were due. -/
  | unpaced (error : Number.Error)
  deriving Repr, DecidableEq

def Stop.message : Stop → String
  | halted _ report => report.message
  | faulted fault => fault.message
  | badSnapshot count => Keypad.wrongLength count
  | unpaced error => error.message

namespace Machine

/-- A halt with a report on the machine as it is. -/
def halt (m : Machine) (kind : HaltKind) (fault : Fault) : Stop :=
  .halted kind ⟨m.dump "???", fault.message, m.opcode, m.origin⟩

/-- Errors of the call stack halt the machine; other faults are passed on. -/
def haltOnStack (m : Machine) : Fault → Stop
  | .stack .overflow => m.halt .stackOverflow (.stack .overflow)
  | .stack .underflow => m.halt .stackUnderflow (.stack .underflow)
  | fault => .faulted fault

/-- Leaving memory halts the machine too. -/
def haltOn (m : Machine) : Fault → Stop
  | .pastEnd pc => m.halt .outOfBounds (.pastEnd pc)
  | .memory (.outside address top) => m.halt .outOfBounds (.memory (.outside address top))
  | fault => m.haltOnStack fault

end Machine
end Chip8
