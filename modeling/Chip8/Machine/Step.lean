import Chip8.Machine.Report

/-!
# Running the machine

A step fetches one instruction and carries it out; a tick replaces the keys,
runs the steps that the elapsed time pays for, and counts the timers down once.
Every activity ends in an outcome: the machine as it was left, what was said,
and why it stopped if it did. After a stop nothing further happens.
-/
namespace Chip8

structure Outcome where
  machine : Machine
  remarks : Array Remark
  stop : Option Stop
  deriving DecidableEq

namespace Outcome

def going (m : Machine) : Outcome := ⟨m, #[], none⟩

def stopped (m : Machine) (stop : Stop) : Outcome := ⟨m, #[], some stop⟩

/-- Goes on with the machine that was left, unless it has stopped. -/
def andThen (o : Outcome) (next : Machine → Outcome) : Outcome :=
  match o.stop with
  | some _ => o
  | none =>
      let after := next o.machine
      { after with remarks := o.remarks ++ after.remarks }

end Outcome

namespace Machine

/-- Moves past the opcode at the program counter. -/
def fetch : MachineM Nat := do
  let m ← get
  match m.memory.word? m.pc with
  | none => throw (.pastEnd m.pc)
  | some word =>
      set { m with pc := m.pc + 2 }
      pure word

/-- Carries out the opcode at hand. An unknown opcode does nothing. -/
def dispatch (stream : RandomBytes) : MachineM Unit := do
  let opcode := (← get).opcode
  modify ({ · with fields := Fields.ofOpcode opcode })
  match Instruction.find? opcode with
  | none => pure ()
  | some instruction => instruction.execute stream

/-- Carries out the opcode at hand on its own, outside any step. -/
def carryOut (stream : RandomBytes) (m : Machine) : Outcome :=
  let remarks := m.remark?.toArray
  match dispatch stream m with
  | .ok _ after => ⟨after, remarks, none⟩
  | .error fault after => ⟨after, remarks, some (after.haltOnStack fault)⟩

def step (stream : RandomBytes) (m : Machine) : Outcome :=
  let m := { m with origin := m.pc }
  match fetch m with
  | .error fault m => .stopped m (m.haltOn fault)
  | .ok word m =>
      let m := { m with opcode := word }
      let remarks := m.remark?.toArray
      match dispatch stream m with
      | .ok _ after => ⟨{ after with ops := after.ops + 1 }, remarks, none⟩
      | .error fault after => ⟨after, remarks, some (after.haltOn fault)⟩

def stepsFrom (stream : RandomBytes) : Nat → Outcome → Outcome
  | 0, o => o
  | n + 1, o =>
      match o.stop with
      | some _ => o
      | none => stepsFrom stream n (o.andThen (step stream))

def steps (stream : RandomBytes) (n : Nat) (m : Machine) : Outcome :=
  stepsFrom stream n (.going m)

def onPacer {α : Type} (x : EStateM Number.Error Pacer α) : EStateM Stop Machine α := fun m =>
  match x m.pacer with
  | .ok a pacer => .ok a { m with pacer }
  | .error e pacer => .error (.unpaced e) { m with pacer }

/-- Takes the keys of a tick, and tells how many steps its time pays for. The keys
are sampled once, before any instruction sees them. -/
def pace (elapsed : Number) (keys : Array Bool) : EStateM Stop Machine Nat := do
  match Keypad.ofSnapshot? keys with
  | none => throw (.badSnapshot keys.size)
  | some keypad =>
      modify ({ · with keypad })
      let count ← onPacer (Pacer.instructionsFor elapsed)
      pure count.toNat

def tick (stream : RandomBytes) (elapsed : Number) (keys : Array Bool) (m : Machine) : Outcome :=
  match pace elapsed keys m with
  | .error stop m => .stopped m stop
  | .ok count m => (steps stream count m).andThen fun m => .going m.countDown

/-- Puts the font and a program into memory and starts at the program. The font
goes first, so a program that does not fit leaves the font behind. -/
def install (program : Array UInt8) : MachineM Unit := do
  onMemory (Memory.writeBlock fontAddress font)
  onMemory (Memory.writeBlock programAddress program)
  modify ({ · with pc := programAddress })

def load (program : Array UInt8) (m : Machine) : Outcome :=
  match install program m with
  | .error fault m => .stopped m (.faulted fault)
  | .ok _ m => ⟨m, #[.programLoaded program.size programAddress], none⟩

end Machine
end Chip8
