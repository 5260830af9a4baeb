import Chip8.Proofs.Machine.Effect
import Chip8.Proofs.Machine.Step

/-!
# Reachable machines

A machine is reachable if it comes from a new one by any operations in any
order, among them operations that were stopped. Every part of a reachable machine
stays in a small range, although the types of the index, the program counter, the
timers and the call stack do not bound them.

The bound on the program counter needs the others: an instruction that was
fetched lies wholly in memory, so the address after it lies in `2..0x1000`. Those
are the addresses that calls put on the stack and returns take from it, the wait
for a key goes back by two from there, a skip goes on by two, and a jump from V0
adds a byte to a twelve-bit address.
-/
namespace Chip8

/-- What can be done with a machine from outside. Random bytes come from any
stream, which may be another one each time. -/
inductive Operation where
  | load (program : Array UInt8)
  | step (stream : RandomBytes)
  | tick (stream : RandomBytes) (elapsed : Number) (keys : Array Bool)
  | countDown
  | press (keys : Array Bool)
  | takeChanged

def Operation.perform (m : Machine) : Operation → Outcome
  | load program => m.load program
  | step stream => m.step stream
  | tick stream elapsed keys => m.tick stream elapsed keys
  | countDown => .going m.countDown
  | press keys =>
      match Keypad.ofSnapshot? keys with
      | none => .stopped m (.badSnapshot keys.size)
      | some keypad => .going { m with keypad }
  | takeChanged => .going { m with screen := m.screen.takeChanged.2 }

namespace Machine

/-- The machine after some operations, each done whether or not one before it was stopped. -/
def performAll (m : Machine) (operations : List Operation) : Machine :=
  operations.foldl (fun m o => (o.perform m).machine) m

inductive Reachable : Machine → Prop
  | new {clockSpeed : Number} {pacer : Pacer} (traced : Bool) :
      Pacer.ofClockSpeed? clockSpeed = some pacer → Reachable (Machine.new pacer traced)
  | perform {m : Machine} (o : Operation) : Reachable m → Reachable (o.perform m).machine

theorem Reachable.performAll {m : Machine} (h : Reachable m) (operations : List Operation) :
    Reachable (m.performAll operations) := by
  induction operations generalizing m with
  | nil => exact h
  | cons o operations ih => exact ih (h.perform o)

theorem Reachable.load {m : Machine} (h : Reachable m) (program : Array UInt8) :
    Reachable (m.load program).machine := h.perform (.load program)

theorem Reachable.step {m : Machine} (h : Reachable m) (stream : RandomBytes) :
    Reachable (m.step stream).machine := h.perform (.step stream)

/-- The ranges that the types of the parts do not give. -/
structure InRange (m : Machine) : Prop where
  index : 0 ≤ m.i ∧ m.i ≤ 0xFFFF
  delay : 0 ≤ m.delay ∧ m.delay ≤ 255
  sound : 0 ≤ m.sound ∧ m.sound ≤ 255
  pc : 0 ≤ m.pc ∧ m.pc ≤ 0x10FE
  opcode : 0 ≤ m.opcode ∧ m.opcode ≤ 0xFFFF
  capacity : m.stack.capacity = 64
  depth : m.stack.depth ≤ 64
  addresses : ∀ address ∈ m.stack.items, 2 ≤ address ∧ address ≤ 0x1000

variable {m after : Machine} {stream : RandomBytes}

theorem InRange.new (pacer : Pacer) (traced : Bool) : (Machine.new pacer traced).InRange where
  index := by simp [Machine.new]
  delay := by simp [Machine.new]
  sound := by simp [Machine.new]
  pc := by simp [Machine.new]
  opcode := by simp [Machine.new]
  capacity := rfl
  depth := Nat.zero_le 64
  addresses := by simp [Machine.new, CallStack.empty]

theorem InRange.strayed (h : m.InRange) : m.strayed.InRange := { h with }

theorem InRange.counted (h : m.InRange) : m.counted.InRange := { h with }

theorem InRange.fetched (h : m.InRange) {word : Nat} (hw : m.memory.word? m.pc = some word) :
    (m.fetched word).InRange := by
  have hpc := pc_of_word? hw
  have hlt := Memory.word?_lt hw
  refine { h with pc := ?_, opcode := ?_ }
  · show 0 ≤ m.pc + 2 ∧ m.pc + 2 ≤ 0x10FE
    omega
  · show 0 ≤ (word : Int) ∧ (word : Int) ≤ 0xFFFF
    omega

theorem InRange.countDown (h : m.InRange) : m.countDown.InRange := by
  have down (n : Int) (hn : 0 ≤ n ∧ n ≤ 255) :
      0 ≤ (if 0 < n then n - 1 else n) ∧ (if 0 < n then n - 1 else n) ≤ 255 := by
    split <;> omega
  exact { h with delay := down _ h.delay, sound := down _ h.sound }

theorem indexAfter_range (h : m.InRange) (i : Instruction) :
    0 ≤ i.indexAfter m ∧ i.indexAfter m ≤ 0xFFFF := by
  cases i with
  | setIndex t =>
      show 0 ≤ (t.val : Int) ∧ (t.val : Int) ≤ 0xFFFF
      omega
  | addToIndex x =>
      show 0 ≤ (m.i + (m.reg x).toNat) % 0x10000 ∧ (m.i + (m.reg x).toNat) % 0x10000 ≤ 0xFFFF
      omega
  | pointAtGlyph x =>
      have hx := (m.reg x).toNat_lt
      show 0 ≤ (0 : Int) + 5 * (m.reg x).toNat ∧ (0 : Int) + 5 * (m.reg x).toNat ≤ 0xFFFF
      omega
  | _ => exact h.index

theorem delayAfter_range (h : m.InRange) (i : Instruction) :
    0 ≤ i.delayAfter m ∧ i.delayAfter m ≤ 255 := by
  cases i with
  | setDelay x =>
      have hx := (m.reg x).toNat_lt
      show 0 ≤ ((m.reg x).toNat : Int) ∧ ((m.reg x).toNat : Int) ≤ 255
      omega
  | _ => exact h.delay

theorem soundAfter_range (h : m.InRange) (i : Instruction) :
    0 ≤ i.soundAfter m ∧ i.soundAfter m ≤ 255 := by
  cases i with
  | setSound x =>
      have hx := (m.reg x).toNat_lt
      show 0 ≤ ((m.reg x).toNat : Int) ∧ ((m.reg x).toNat : Int) ≤ 255
      omega
  | _ => exact h.sound

theorem nextAddress_range (h : m.InRange) {a : Int} (ha : 0 ≤ a ∧ a ≤ 0xFFE) (i : Instruction) :
    0 ≤ i.nextAddress a m ∧ i.nextAddress a m ≤ 0x10FE := by
  cases i with
  | jump t | call t =>
      show 0 ≤ (t.val : Int) ∧ (t.val : Int) ≤ 0x10FE
      omega
  | jumpFromV0 t =>
      have hv := (m.reg firstRegister).toNat_lt
      show 0 ≤ (t.val : Int) + (m.reg firstRegister).toNat ∧
        (t.val : Int) + (m.reg firstRegister).toNat ≤ 0x10FE
      omega
  | ret =>
      show 0 ≤ m.stack.items.back?.getD (a + 2) ∧ m.stack.items.back?.getD (a + 2) ≤ 0x10FE
      cases htop : m.stack.items.back? with
      | none =>
          rw [Option.getD_none]
          omega
      | some address =>
          have hin := h.addresses address (Array.mem_of_back? htop)
          rw [Option.getD_some]
          omega
  | _ =>
      unfold Instruction.nextAddress
      dsimp only
      split <;> omega

/-- Only a call makes the call stack deeper, and it needs room for that. -/
theorem InRange.depth_after (h : m.InRange) {i : Instruction} {a : Int}
    (he : i.execute stream m = .ok () after) :
    (i.stackAfter a m).depth ≤ 64 := by
  have hdepth := h.depth
  cases i with
  | call t =>
      have hroom := (callTo_eq_ok_iff.mp he).1
      rw [h.capacity] at hroom
      show (m.stack.items.push (a + 2)).size ≤ 64
      rw [Array.size_push]
      exact Int.ofNat_lt.mp hroom
  | ret =>
      show m.stack.items.pop.size ≤ 64
      rw [Array.size_pop]
      exact Nat.le_trans (Nat.sub_le _ _) hdepth
  | _ => exact hdepth

theorem InRange.addresses_after (h : m.InRange) {a : Int} (ha : 0 ≤ a ∧ a ≤ 0xFFE)
    (i : Instruction) :
    ∀ address ∈ (i.stackAfter a m).items, 2 ≤ address ∧ address ≤ 0x1000 := by
  cases i with
  | call t =>
      intro address hin
      rcases Array.mem_push.mp hin with hold | rfl
      · exact h.addresses address hold
      · omega
  | ret =>
      intro address hin
      have hmem : address ∈ m.stack.items.toList.dropLast := by
        rw [← Array.toList_pop]
        exact Array.mem_toList_iff.mpr hin
      exact h.addresses address (Array.mem_toList_iff.mp (List.dropLast_subset _ hmem))
  | _ => exact h.addresses

theorem capacity_after (i : Instruction) (a : Int) (m : Machine) :
    (i.stackAfter a m).capacity = m.stack.capacity := by
  cases i <;> rfl

theorem InRange.execute (h : m.InRange) {a : Int} (ha : 0 ≤ a ∧ a ≤ 0xFFE)
    (hpc : m.pc = a + 2) {i : Instruction} (he : i.execute stream m = .ok () after) :
    after.InRange := by
  have e := Instruction.execute_effect hpc he
  have hshape := Instruction.execute_shape he
  exact {
    index := e.index ▸ indexAfter_range h i
    delay := e.delay ▸ delayAfter_range h i
    sound := e.sound ▸ soundAfter_range h i
    pc := e.pc ▸ nextAddress_range h ha i
    opcode := by rw [hshape]; exact h.opcode
    capacity := by rw [e.stack, capacity_after, h.capacity]
    depth := e.stack ▸ h.depth_after he
    addresses := e.stack ▸ h.addresses_after ha i }

/-- One step keeps every part in its range, whether it returns or stops. -/
theorem InRange.step (h : m.InRange) (stream : RandomBytes) : (m.step stream).machine.InRange := by
  have hs := stepped stream m
  generalize m.step stream = o at hs ⊢
  cases hs with
  | strayed => exact h.strayed
  | skipped hw => exact (h.fetched hw).counted
  | completed hw _ he =>
      exact ((h.fetched hw).execute (pc_of_word? hw) rfl he).counted
  | failed hw => exact h.fetched hw

theorem InRange.withMemory (h : m.InRange) (memory : Memory memorySize) :
    InRange { m with memory } := { h with }

theorem InRange.restarted (h : m.InRange) : InRange { m with pc := programAddress } :=
  { h with pc := by simp }

theorem InRange.programLaid (h : m.InRange) (program : Array UInt8) :
    (m.programLaid program).InRange :=
  (h.withMemory ⟨Memory.overlay m.memory.bytes programAddress program.toList⟩).restarted

theorem InRange.load (h : m.InRange) (program : Array UInt8) :
    (m.load program).machine.InRange := by
  rw [load_eq]
  split
  · exact InRange.programLaid (m := m.fontLaid) (h.withMemory _) program
  · exact h.withMemory _

theorem InRange.perform (h : m.InRange) (o : Operation) : (o.perform m).machine.InRange := by
  cases o with
  | load program => exact h.load program
  | step stream => exact h.step stream
  | tick stream elapsed keys =>
      exact tick_preserves elapsed keys (fun _ _ h => { h with }) (fun _ _ h => { h with })
        (fun _ h => h.step stream) (fun _ h => h.countDown) h
  | countDown => exact h.countDown
  | press keys =>
      unfold Operation.perform
      dsimp only
      split
      · exact h
      · exact { h with }
  | takeChanged => exact { h with }

theorem Reachable.inRange (h : Reachable m) : m.InRange := by
  induction h with
  | new traced _ => exact .new _ traced
  | perform o _ ih => exact ih.perform o

/-- Every part of a reachable machine is in its range, those whose type says so included. -/
theorem Reachable.ranges (h : Reachable m) :
    (m.v.toArray.size = 16 ∧ ∀ x, (m.reg x).toNat ≤ 255) ∧
      (0 ≤ m.i ∧ m.i ≤ 0xFFFF) ∧
      (0 ≤ m.delay ∧ m.delay ≤ 255) ∧
      (0 ≤ m.sound ∧ m.sound ≤ 255) ∧
      (0 ≤ m.pc ∧ m.pc ≤ 0x10FE) ∧
      (0 ≤ m.opcode ∧ m.opcode ≤ 0xFFFF) ∧
      (m.memory.bytes.toArray.size = 4096 ∧
        ∀ k (hk : k < memorySize), m.memory.bytes[k].toNat ≤ 255) ∧
      (m.stack.depth ≤ 64 ∧ ∀ address ∈ m.stack.items, 2 ≤ address ∧ address ≤ 0x1000) ∧
      m.screen.pixels.toArray.size = 2048 ∧
      m.keypad.down.toArray.size = 16 := by
  have hbyte (b : UInt8) : b.toNat ≤ 255 := Nat.le_of_lt_succ b.toNat_lt
  have hr := h.inRange
  refine ⟨⟨m.v.size_toArray, fun x => hbyte _⟩, hr.index, hr.delay, hr.sound, hr.pc, hr.opcode,
    ⟨m.memory.bytes.size_toArray, fun k hk => hbyte _⟩, ⟨hr.depth, hr.addresses⟩, ?_, ?_⟩
  · exact m.screen.pixels.size_toArray
  · exact m.keypad.down.size_toArray

theorem reachable_default (traced : Bool) :
    Reachable (Machine.new ⟨Pacer.defaultClockSpeed, .zero⟩ traced) := by
  have hpacer : Pacer.ofClockSpeed? Pacer.defaultClockSpeed =
      some ⟨Pacer.defaultClockSpeed, .zero⟩ := by decide
  exact .new traced hpacer

theorem ranges_of_endless_call :
    let m := (Machine.new ⟨Pacer.defaultClockSpeed, .zero⟩ false).performAll
      (.load #[0x22, 0x00] :: List.replicate 80 (.step fun _ => 0))
    Reachable m ∧ m.pc ≤ 0x10FE ∧ m.stack.depth ≤ 64 := by
  have hreachable := (reachable_default false).performAll
    (.load #[0x22, 0x00] :: List.replicate 80 (.step fun _ => 0))
  obtain ⟨-, -, -, -, hpc, -, -, hstack, -⟩ := hreachable.ranges
  exact ⟨hreachable, hpc.2, hstack.1⟩

end Machine
end Chip8
