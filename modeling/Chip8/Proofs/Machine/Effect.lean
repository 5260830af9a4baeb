import Chip8.Machine.Execute
import Chip8.Proofs.CallStack
import Chip8.Proofs.Memory.Block

/-!
# What an instruction changes

For each part of the machine, the instructions that change it and, where it can
be said in a line, what it becomes. The index, the timers, the call stack and the
program counter are given outright; of the registers, the bytes of memory and the
screen it is only said which may change. What is drawn on the screen and which
values the registers get is not stated here.

An instruction is carried out when the program counter is already past it. The
tables name the address `a` of the instruction itself.

An instruction that fails changes nothing. Each of those that can fail is looked at
on its own for that: whatever it does before it fails leaves the machine as it was.
-/
namespace Chip8

namespace Machine
variable {m after : Machine}

theorem reg_setReg_self (m : Machine) (x : Fin 16) (b : UInt8) : (m.setReg x b).reg x = b :=
  Vector.getElem_set_self _

theorem reg_setReg_of_ne {r x : Fin 16} (h : r ≠ x) (b : UInt8) :
    (m.setReg x b).reg r = m.reg r := by
  have hne : x.val ≠ r.val := fun e => h (Fin.ext e.symm)
  exact Vector.getElem_set_ne x.isLt r.isLt hne

theorem reg_setFlag_of_ne {r : Fin 16} (h : r ≠ flagRegister) (flag : Bool) :
    (m.setFlag flag).reg r = m.reg r :=
  reg_setReg_of_ne h _

theorem reg_setFlag (flag : Bool) :
    (m.setFlag flag).reg flagRegister = if flag then 1 else 0 :=
  reg_setReg_self m flagRegister _

theorem skipIf_eq (condition : Bool) :
    m.skipIf condition = { m with pc := if condition then m.pc + 2 else m.pc } := by
  cases condition <;> rfl

theorem modify_eq_ok_iff {f : Machine → Machine} :
    (modify f : MachineM Unit) m = .ok () after ↔ after = f m := by
  constructor
  · intro h
    cases h
    rfl
  · rintro rfl
    rfl

theorem setFlag_setFlag (flag flag' : Bool) :
    (m.setFlag flag).setFlag flag' = m.setFlag flag' := by
  simp only [setFlag, setReg, Vector.set_set]

theorem callTo_apply (m : Machine) (address : Int) :
    callTo address m =
      if m.stack.capacity ≤ m.stack.depth then .error (.stack .overflow) m
      else .ok () { m with
        stack := { m.stack with items := m.stack.items.push m.pc }
        pc := address } := by
  show EStateM.bind (onStack (CallStack.push m.pc)) _ m = _
  by_cases h : m.stack.capacity ≤ m.stack.depth
  · simp only [EStateM.bind, onStack, CallStack.push_apply, if_pos h]
  · simp only [EStateM.bind, onStack, CallStack.push_apply, if_neg h]
    rfl

theorem returnFromCall_apply (m : Machine) :
    returnFromCall m =
      match m.stack.items.back? with
      | none => .error (.stack .underflow) m
      | some address => .ok () { m with
          stack := { m.stack with items := m.stack.items.pop }
          pc := address } := by
  show EStateM.bind (onStack CallStack.pop) _ m = _
  simp only [EStateM.bind, onStack, CallStack.pop_apply]
  cases m.stack.items.back? <;> rfl

theorem readAtIndex_apply (m : Machine) (length : Nat) :
    readAtIndex length m =
      match m.memory.readBlock m.i length with
      | .error e => .error (.memory e) m
      | .ok block => .ok block m := by
  show (ofExcept ((m.memory.readBlock m.i length).mapError Fault.memory) : MachineM _) m = _
  cases m.memory.readBlock m.i length <;> rfl

theorem drawSprite_apply (m : Machine) (x y n : Fin 16) :
    drawSprite x y n m =
      match m.memory.readBlock m.i n.val with
      | .error e => .error (.memory e) m
      | .ok rows =>
          let drawn := m.screen.invertAll (spriteCells ((m.reg x).toNat % screenWidth)
            ((m.reg y).toNat % screenHeight) rows.toList)
          .ok () ({ m with screen := drawn.2 }.setFlag drawn.1) := by
  show EStateM.bind (readAtIndex n.val) _ m = _
  simp only [EStateM.bind, readAtIndex_apply]
  cases m.memory.readBlock m.i n.val with
  | error e => rfl
  | ok rows =>
      dsimp only
      generalize m.screen.invertAll _ = drawn
      obtain ⟨hit, screen⟩ := drawn
      -- The flag is reset before anything is drawn, and set again if a pixel was put out.
      cases hit with
      | false => rfl
      | true => exact congrArg (EStateM.Result.ok ()) (setFlag_setFlag (m := { m with screen }) ..)

theorem getDelay_apply (m : Machine) (x : Fin 16) :
    getDelay x m =
      if 0 ≤ m.delay ∧ m.delay ≤ 255 then .ok () (m.setReg x (UInt8.ofNat m.delay.toNat))
      else .error .notAByte m := by
  show (if 0 ≤ m.delay ∧ m.delay ≤ 255 then _ else _ : MachineM Unit) m = _
  split <;> rfl

/-- A block that does not begin below zero is written where it lies. -/
theorem onMemory_writeBlock (m : Machine) {address : Int} (block : Array UInt8)
    (h : 0 ≤ address) :
    onMemory (Memory.writeBlock address block) m =
      if Memory.Holds memorySize address block.size then
        .ok () { m with memory := ⟨Memory.overlay m.memory.bytes address.toNat block.toList⟩ }
      else .error (.memory (.outside (address + block.size - 1) m.memory.top)) m := by
  by_cases hin : Memory.Holds memorySize address block.size
  · simp only [onMemory, Memory.writeBlock_eq m.memory block h, if_pos hin]
  · simp only [onMemory, Memory.writeBlock_eq m.memory block h, if_neg hin]

theorem store_apply (m : Machine) (block : Array UInt8) :
    store block m =
      match Memory.writeBlock m.i block m.memory with
      | .error e memory => .error (.memory e) { m with memory }
      | .ok _ memory => .ok () { m with memory } := by
  show onMemory (Memory.writeBlock m.i block) m = _
  unfold onMemory
  cases Memory.writeBlock m.i block m.memory <;> rfl

theorem loadRegisters_apply (m : Machine) (x : Fin 16) :
    loadRegisters x m =
      match m.memory.readBlock m.i (x.val + 1 : Nat) with
      | .error e => .error (.memory e) m
      | .ok block =>
          if block.size = x.val + 1 then
            .ok () { m with
              v := m.v.mapIdx fun k b => if k ≤ x.val then block.getD k b else b }
          else .error (.memory .unequalBlock) m := by
  show EStateM.bind (readAtIndex (x.val + 1)) _ m = _
  simp only [EStateM.bind, readAtIndex_apply]
  cases m.memory.readBlock m.i (x.val + 1 : Nat) with
  | error e => rfl
  | ok block =>
      dsimp only
      by_cases h : block.size = x.val + 1
      · rw [if_pos h, if_pos h]
        rfl
      · rw [if_neg h, if_neg h]
        rfl

theorem callTo_eq_ok_iff {address : Int} :
    callTo address m = .ok () after ↔
      m.stack.depth < m.stack.capacity ∧
        after = { m with
          stack := { m.stack with items := m.stack.items.push m.pc }
          pc := address } := by
  rw [callTo_apply]
  by_cases h : m.stack.capacity ≤ m.stack.depth
  · simp [h, Int.not_lt.mpr h]
  · simp [h, Int.not_le.mp h, eq_comm]

theorem returnFromCall_eq_ok_iff :
    returnFromCall m = .ok () after ↔
      ∃ address, m.stack.items.back? = some address ∧
        after = { m with
          stack := { m.stack with items := m.stack.items.pop }
          pc := address } := by
  rw [returnFromCall_apply]
  cases m.stack.items.back? with
  | none => simp
  | some address => simp [eq_comm]

theorem drawSprite_eq_ok_iff {x y n : Fin 16} :
    drawSprite x y n m = .ok () after ↔
      ∃ rows, m.memory.readBlock m.i n.val = .ok rows ∧
        after =
          let drawn := m.screen.invertAll (spriteCells ((m.reg x).toNat % screenWidth)
            ((m.reg y).toNat % screenHeight) rows.toList)
          { m with screen := drawn.2 }.setFlag drawn.1 := by
  rw [drawSprite_apply]
  cases m.memory.readBlock m.i n.val with
  | error e => simp
  | ok rows => simp [eq_comm]

theorem getDelay_eq_ok_iff {x : Fin 16} :
    getDelay x m = .ok () after ↔
      (0 ≤ m.delay ∧ m.delay ≤ 255) ∧ after = m.setReg x (UInt8.ofNat m.delay.toNat) := by
  rw [getDelay_apply]
  by_cases h : 0 ≤ m.delay ∧ m.delay ≤ 255
  · simp [h, eq_comm]
  · simp [h]

theorem store_eq_ok_iff {block : Array UInt8} :
    store block m = .ok () after ↔
      ∃ memory, Memory.writeBlock m.i block m.memory = .ok () memory ∧
        after = { m with memory } := by
  rw [store_apply]
  cases Memory.writeBlock m.i block m.memory with
  | error e memory => simp
  | ok _ memory => simp [eq_comm]

theorem size_firstRegisters (m : Machine) (x : Fin 16) :
    (m.v.toArray.extract 0 (x.val + 1)).size = x.val + 1 := by
  rw [Array.size_extract, Vector.size_toArray, Nat.min_eq_left x.isLt, Nat.sub_zero]

theorem loadRegisters_eq_ok_iff {x : Fin 16} :
    loadRegisters x m = .ok () after ↔
      ∃ block, m.memory.readBlock m.i (x.val + 1 : Nat) = .ok block ∧ block.size = x.val + 1 ∧
        after = { m with
          v := m.v.mapIdx fun k b => if k ≤ x.val then block.getD k b else b } := by
  rw [loadRegisters_apply]
  cases m.memory.readBlock m.i (x.val + 1 : Nat) with
  | error e => simp
  | ok block =>
      by_cases h : block.size = x.val + 1
      · simp [h, eq_comm]
      · simp [h]

/-! ## What a fault leaves -/

variable {fault : Fault} {left : Machine}

theorem eq_of_callTo_eq_error {address : Int} (h : callTo address m = .error fault left) :
    left = m := by
  rw [callTo_apply] at h
  split at h <;> cases h
  rfl

theorem eq_of_returnFromCall_eq_error (h : returnFromCall m = .error fault left) : left = m := by
  rw [returnFromCall_apply] at h
  split at h <;> cases h
  rfl

/-- The rows are read while neither VF nor the screen has changed. -/
theorem eq_of_drawSprite_eq_error {x y n : Fin 16} (h : drawSprite x y n m = .error fault left) :
    left = m := by
  rw [drawSprite_apply] at h
  split at h <;> cases h
  rfl

theorem eq_of_getDelay_eq_error {x : Fin 16} (h : getDelay x m = .error fault left) :
    left = m := by
  rw [getDelay_apply] at h
  split at h <;> cases h
  rfl

/-- A block is written as a whole or not at all. -/
theorem eq_of_store_eq_error {block : Array UInt8} (h : store block m = .error fault left) :
    left = m := by
  rw [store_apply] at h
  cases hwrite : Memory.writeBlock m.i block m.memory with
  | ok _ memory =>
      rw [hwrite] at h
      cases h
  | error e memory =>
      rw [hwrite] at h
      cases h
      rw [Memory.eq_of_writeBlock_eq_error hwrite]

/-- The registers are filled only when all their bytes have been read. -/
theorem eq_of_loadRegisters_eq_error {x : Fin 16}
    (h : loadRegisters x m = .error fault left) : left = m := by
  rw [loadRegisters_apply] at h
  split at h
  · cases h
    rfl
  · split at h <;> cases h
    rfl

end Machine

namespace Instruction
open Machine (flagRegister firstRegister)

def WritesRegister : Instruction → Fin 16 → Prop
  | setByte x _, r | addByte x _, r | copy x _, r | or x _, r | and x _, r | xor x _, r
  | random x _, r | getDelay x, r | waitForKey x, r => r = x
  | add x _, r | subtract x _, r | subtractFrom x _, r | shiftRight x, r | shiftLeft x, r =>
      r = x ∨ r = flagRegister
  | draw _ _ _, r | addToIndex _, r => r = flagRegister
  | loadRegisters x, r => r ≤ x
  | _, _ => False

/-- The addresses that an instruction may write to when the index is `index`. -/
def WritesByte (index : Int) : Instruction → Int → Prop
  | storeDigits _, k => index ≤ k ∧ k ≤ index + 2
  | storeRegisters x, k => index ≤ k ∧ k ≤ index + x.val
  | _, _ => False

def Draws : Instruction → Prop
  | clear | draw _ _ _ => True
  | _ => False

def indexAfter (m : Machine) : Instruction → Int
  | setIndex t => t.val
  | addToIndex x => (m.i + (m.reg x).toNat) % 0x10000
  | pointAtGlyph x => fontAddress + glyphSize * (m.reg x).toNat
  | _ => m.i

def delayAfter (m : Machine) : Instruction → Int
  | setDelay x => (m.reg x).toNat
  | _ => m.delay

def soundAfter (m : Machine) : Instruction → Int
  | setSound x => (m.reg x).toNat
  | _ => m.sound

def stackAfter (a : Int) (m : Machine) : Instruction → CallStack Int
  | call _ => { m.stack with items := m.stack.items.push (a + 2) }
  | ret => { m.stack with items := m.stack.items.pop }
  | _ => m.stack

def skips (m : Machine) : Instruction → Bool
  | skipIfByte x k => m.reg x == k
  | skipUnlessByte x k => m.reg x != k
  | skipIfSame x y => m.reg x == m.reg y
  | skipUnlessSame x y => m.reg x != m.reg y
  | skipIfKey x => m.keypad.isDown (m.reg x).toNat
  | skipUnlessKey x => !m.keypad.isDown (m.reg x).toNat
  | _ => false

/-- Where the program goes on after an instruction at `a`. A return goes to the
top of the call stack, and the wait for a key stays while every key is up. -/
def nextAddress (a : Int) (m : Machine) : Instruction → Int
  | jump t | call t => t.val
  | jumpFromV0 t => t.val + (m.reg firstRegister).toNat
  | ret => m.stack.items.back?.getD (a + 2)
  | waitForKey _ => if m.keypad = Keypad.released then a else a + 2
  | i => if i.skips m then a + 4 else a + 2

/-- What an instruction at `a` makes of a machine. A field that is not given
holds because the part is not touched at all. -/
structure Effect (i : Instruction) (a : Int) (m after : Machine) : Prop where
  memory : ∀ k (hk : k < memorySize), ¬ i.WritesByte m.i k →
    after.memory.bytes[k] = m.memory.bytes[k] := by intros; rfl
  screen : ¬ i.Draws → after.screen = m.screen := by intros; rfl
  registers : ∀ r, ¬ i.WritesRegister r → after.reg r = m.reg r := by intros; rfl
  index : after.i = i.indexAfter m := by rfl
  delay : after.delay = i.delayAfter m := by rfl
  sound : after.sound = i.soundAfter m := by rfl
  stack : after.stack = i.stackAfter a m := by rfl
  pc : after.pc = i.nextAddress a m
  returned : i = ret → m.stack.items.back? = some after.pc := by intro h; cases h

end Instruction

theorem Keypad.firstDown?_eq_none_iff {k : Keypad} :
    k.firstDown? = none ↔ k = Keypad.released := by
  unfold Keypad.firstDown?
  rw [List.find?_eq_none]
  constructor
  · intro h
    have hdown : k.down = Vector.replicate keyCount false := by
      ext key hkey
      simpa using h ⟨key, hkey⟩ (List.mem_finRange _)
    cases k
    exact congrArg Keypad.mk hdown
  · rintro rfl key -
    simp [Keypad.released]

namespace Instruction
open Machine (flagRegister firstRegister)
variable {stream : RandomBytes} {m after : Machine} {i : Instruction} {a : Int}

theorem execute_storeDigits (x : Fin 16) :
    (storeDigits x).execute stream m = Machine.store (decimalDigits (m.reg x)) m := by
  rfl

theorem execute_storeRegisters (x : Fin 16) :
    (storeRegisters x).execute stream m =
      Machine.store (m.v.toArray.extract 0 (x.val + 1)) m := by
  rfl

/-- An instruction that fails leaves the machine as it was. -/
theorem eq_of_execute_eq_error {fault : Fault} {left : Machine}
    (h : i.execute stream m = .error fault left) : left = m := by
  cases i with
  | ret => exact Machine.eq_of_returnFromCall_eq_error h
  | call => exact Machine.eq_of_callTo_eq_error h
  | draw => exact Machine.eq_of_drawSprite_eq_error h
  | getDelay => exact Machine.eq_of_getDelay_eq_error h
  | storeDigits x => exact Machine.eq_of_store_eq_error (execute_storeDigits x ▸ h)
  | storeRegisters x => exact Machine.eq_of_store_eq_error (execute_storeRegisters x ▸ h)
  | loadRegisters => exact Machine.eq_of_loadRegisters_eq_error h
  | _ => cases h

/-- What no instruction touches: the opcode and where it was fetched, its fields,
the keypad, the pacer, the count of instructions and the trace. -/
theorem execute_shape (h : i.execute stream m = .ok () after) :
    after = { m with
      v := after.v, i := after.i, pc := after.pc, delay := after.delay, sound := after.sound
      memory := after.memory, stack := after.stack, screen := after.screen
      drawn := after.drawn } := by
  cases i with
  | ret =>
      obtain ⟨_, -, rfl⟩ := Machine.returnFromCall_eq_ok_iff.mp h
      rfl
  | call t =>
      obtain ⟨-, rfl⟩ := Machine.callTo_eq_ok_iff.mp h
      rfl
  | skipIfByte | skipUnlessByte | skipIfSame | skipUnlessSame | skipIfKey | skipUnlessKey =>
      obtain rfl := Machine.modify_eq_ok_iff.mp h
      rw [Machine.skipIf_eq]
  | getDelay x =>
      obtain ⟨-, rfl⟩ := Machine.getDelay_eq_ok_iff.mp h
      rfl
  | draw x y n =>
      obtain ⟨_, -, rfl⟩ := Machine.drawSprite_eq_ok_iff.mp h
      rfl
  | waitForKey x =>
      obtain rfl := Machine.modify_eq_ok_iff.mp h
      unfold Machine.waitForKey
      split <;> rfl
  | storeDigits x =>
      rw [execute_storeDigits] at h
      obtain ⟨_, -, rfl⟩ := Machine.store_eq_ok_iff.mp h
      rfl
  | storeRegisters x =>
      rw [execute_storeRegisters] at h
      obtain ⟨_, -, rfl⟩ := Machine.store_eq_ok_iff.mp h
      rfl
  | loadRegisters x =>
      obtain ⟨_, -, -, rfl⟩ := Machine.loadRegisters_eq_ok_iff.mp h
      rfl
  | _ =>
      obtain rfl := Machine.modify_eq_ok_iff.mp h
      rfl

theorem execute_effect (hpc : m.pc = a + 2) (h : i.execute stream m = .ok () after) :
    i.Effect a m after := by
  cases i with
  | clear =>
      obtain rfl := Machine.modify_eq_ok_iff.mp h
      exact { screen := fun hd => (hd trivial).elim, pc := hpc }
  | ret =>
      obtain ⟨address, htop, rfl⟩ := Machine.returnFromCall_eq_ok_iff.mp h
      have hnext : ret.nextAddress a m = address := by
        show m.stack.items.back?.getD (a + 2) = address
        rw [htop, Option.getD_some]
      exact { pc := hnext.symm, returned := fun _ => htop }
  | jump t | jumpFromV0 t =>
      obtain rfl := Machine.modify_eq_ok_iff.mp h
      exact { pc := rfl }
  | call t =>
      obtain ⟨-, rfl⟩ := Machine.callTo_eq_ok_iff.mp h
      rw [hpc]
      exact { pc := rfl }
  | skipIfByte | skipUnlessByte | skipIfSame | skipUnlessSame | skipIfKey | skipUnlessKey =>
      obtain rfl := Machine.modify_eq_ok_iff.mp h
      rw [Machine.skipIf_eq, hpc]
      exact {
        pc := by
          show (if _ then a + 2 + 2 else a + 2) = if _ then a + 4 else a + 2
          rw [Int.add_assoc]
          rfl }
  | setByte x | addByte x | copy x | or x | and x | xor x | random x =>
      obtain rfl := Machine.modify_eq_ok_iff.mp h
      exact { registers := fun r hr => Machine.reg_setReg_of_ne hr _, pc := hpc }
  | getDelay x =>
      obtain ⟨-, rfl⟩ := Machine.getDelay_eq_ok_iff.mp h
      exact { registers := fun r hr => Machine.reg_setReg_of_ne hr _, pc := hpc }
  | add x | subtract x | subtractFrom x | shiftRight x | shiftLeft x =>
      obtain rfl := Machine.modify_eq_ok_iff.mp h
      exact {
        registers := fun r hr => by
          obtain ⟨hx, hf⟩ := not_or.mp hr
          exact (Machine.reg_setReg_of_ne hx _).trans (Machine.reg_setFlag_of_ne hf _)
        pc := hpc }
  | draw x y n =>
      obtain ⟨_, -, rfl⟩ := Machine.drawSprite_eq_ok_iff.mp h
      exact {
        screen := fun hd => (hd trivial).elim
        registers := fun r hr => Machine.reg_setFlag_of_ne hr _
        pc := hpc }
  | addToIndex x =>
      obtain rfl := Machine.modify_eq_ok_iff.mp h
      exact { registers := fun r hr => Machine.reg_setFlag_of_ne hr _, pc := hpc }
  | setIndex | pointAtGlyph | setDelay | setSound =>
      obtain rfl := Machine.modify_eq_ok_iff.mp h
      exact { pc := hpc }
  | waitForKey x =>
      obtain rfl := Machine.modify_eq_ok_iff.mp h
      unfold Machine.waitForKey
      split
      · rename_i key hkey
        have hdown : ¬ m.keypad = Keypad.released := by
          rw [← Keypad.firstDown?_eq_none_iff, hkey]
          exact Option.some_ne_none _
        exact {
          registers := fun r hr => Machine.reg_setReg_of_ne hr _
          pc := hpc.trans (if_neg hdown).symm }
      · rename_i hkey
        have hup := Keypad.firstDown?_eq_none_iff.mp hkey
        have hback : m.pc - 2 = a := by omega
        exact { pc := hback.trans (if_pos hup).symm }
  | storeDigits x =>
      rw [execute_storeDigits] at h
      obtain ⟨memory, hw, rfl⟩ := Machine.store_eq_ok_iff.mp h
      have hsize : (decimalDigits (m.reg x)).size = 3 := rfl
      exact {
        memory := fun k hk hout => Memory.getElem_writeBlock_of_outside hw hk (by
          unfold WritesByte at hout
          omega)
        pc := hpc }
  | storeRegisters x =>
      rw [execute_storeRegisters] at h
      obtain ⟨memory, hw, rfl⟩ := Machine.store_eq_ok_iff.mp h
      have hsize := m.size_firstRegisters x
      exact {
        memory := fun k hk hout => Memory.getElem_writeBlock_of_outside hw hk (by
          unfold WritesByte at hout
          omega)
        pc := hpc }
  | loadRegisters x =>
      obtain ⟨block, -, -, rfl⟩ := Machine.loadRegisters_eq_ok_iff.mp h
      exact {
        registers := fun r hr => by
          have hgt : ¬ r.val ≤ x.val := hr
          simp [Machine.reg, hgt]
        pc := hpc }

end Instruction
end Chip8
