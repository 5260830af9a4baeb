import Chip8.Proofs.Machine.Reachable

/-!
# Arithmetic

Sums, differences and bitwise operations take their operands from the machine as it was,
also where an operand is the flag register or one register is named twice. An instruction
with a flag writes the flag before its result, so in the flag register the result wins.

A shift reads the register that it shifts after the flag was written. In the flag register
it therefore shifts the flag, and what that register held is lost.
-/
namespace Chip8.Machine
variable {stream : RandomBytes} {m after : Machine} {x y : Fin 16} {value : Int}
  {flag? : Option Bool}

/-- The flag register after an instruction with another destination: it holds the flag, if
the instruction has one. -/
def flagAfter (m : Machine) : Option Bool → UInt8
  | none => m.reg flagRegister
  | some flag => if flag then 1 else 0

/-- What an instruction leaves that stores a number in register `x` and may have a flag. -/
structure Stored (x : Fin 16) (value : Int) (flag? : Option Bool) (m after : Machine) : Prop where
  result : (after.reg x).toNat = value
  flag : x ≠ flagRegister → after.reg flagRegister = m.flagAfter flag?
  others : ∀ r, r ≠ x → r ≠ flagRegister → after.reg r = m.reg r
  index : after.i = m.i

/-- A step on the word returns, and the machine that it leaves is as described. -/
def StepLeaves (m : Machine) (stream : RandomBytes) (word : Nat) (P : Machine → Prop) : Prop :=
  m.memory.word? m.pc = some word → (m.step stream).stop = none ∧ P (m.step stream).machine

theorem stepLeaves_of_execute {word : Nat} {i : Instruction} {P : Machine → Prop}
    (hi : Instruction.StandsFor word i) (he : i.execute stream (m.fetched word) = .ok () after)
    (hP : P after.counted) : m.StepLeaves stream word P := by
  intro hword
  rw [step_of_execute hword hi he]
  exact ⟨rfl, hP⟩

/-- Neither fetching an instruction nor counting it shows in what it stores. -/
theorem stepLeaves_stored {word : Nat} {i : Instruction} (hi : Instruction.StandsFor word i)
    (he : i.execute stream (m.fetched word) = .ok () after)
    (hs : Stored x value flag? (m.fetched word) after) :
    m.StepLeaves stream word (Stored x value flag? m) :=
  stepLeaves_of_execute hi he { hs with }

theorem stored_setReg {b : UInt8} (hb : (b.toNat : Int) = value) :
    Stored x value none m (m.setReg x b) where
  result := by rw [reg_setReg_self, hb]
  flag hx := reg_setReg_of_ne hx.symm b
  others r hr _ := reg_setReg_of_ne hr b
  index := rfl

/-- A flag that is written first stays only if its register is not the destination. -/
theorem stored_flagged {flag : Bool} {b : UInt8} (hb : (b.toNat : Int) = value) :
    Stored x value (some flag) m ((m.setFlag flag).setReg x b) where
  result := by rw [reg_setReg_self, hb]
  flag hx := (reg_setReg_of_ne hx.symm b).trans (reg_setFlag flag)
  others r hr hf := (reg_setReg_of_ne hr b).trans (reg_setFlag_of_ne hf flag)
  index := rfl

theorem stored_addRegisters (m : Machine) (x y : Fin 16) :
    Stored x (((m.reg x).toNat + (m.reg y).toNat) % 256)
      (some (255 < (m.reg x).toNat + (m.reg y).toNat)) m (m.addRegisters x y) :=
  stored_flagged (by simp)

theorem stored_storeDifference (m : Machine) (x : Fin 16) (a b : UInt8) :
    Stored x ((a.toNat - b.toNat : Int) % 256) (some (b.toNat ≤ a.toNat)) m
      (m.storeDifference x a b) := by
  have ha := a.toNat_lt
  have hb := b.toNat_lt
  refine stored_flagged ?_
  rw [UInt8.toNat_sub]
  omega

/-- What the sum of the index and register `x` leaves. Its flag is never overwritten. -/
structure IndexAdvanced (x : Fin 16) (m after : Machine) : Prop where
  index : after.i = (m.i + (m.reg x).toNat) % 65536
  flag : after.reg flagRegister = if 0xFFF < m.i + (m.reg x).toNat then 1 else 0
  others : ∀ r, r ≠ flagRegister → after.reg r = m.reg r

theorem indexAdvanced_addToIndex (m : Machine) (x : Fin 16) :
    IndexAdvanced x m (m.addToIndex x) where
  index := rfl
  flag := (reg_setFlag _).trans (by simp)
  others r hr := reg_setFlag_of_ne hr _

/-- Results are those of the operands as they were, whichever registers hold them. -/
theorem results_of_operands (m : Machine) (stream : RandomBytes) (x y : Fin 16) (k : UInt8) :
    let a : Nat := (m.reg x).toNat
    let b : Nat := (m.reg y).toNat
    m.StepLeaves stream (registersWord 0x8 x y 0x4)
        (Stored x ((a + b) % 256) (some (255 < a + b)) m) ∧
      m.StepLeaves stream (registersWord 0x8 x y 0x5)
        (Stored x ((a - b : Int) % 256) (some (b ≤ a)) m) ∧
      m.StepLeaves stream (registersWord 0x8 x y 0x7)
        (Stored x ((b - a : Int) % 256) (some (a ≤ b)) m) ∧
      m.StepLeaves stream (byteWord 0x7 x k) (Stored x ((a + k.toNat) % 256) none m) ∧
      m.StepLeaves stream (registersWord 0x8 x y 0x1) (Stored x (a ||| b : Nat) none m) ∧
      m.StepLeaves stream (registersWord 0x8 x y 0x2) (Stored x (a &&& b : Nat) none m) ∧
      m.StepLeaves stream (registersWord 0x8 x y 0x3) (Stored x (a ^^^ b : Nat) none m) ∧
      m.StepLeaves stream (byteWord 0xF x 0x1E) (IndexAdvanced x m) := by
  intro a b
  refine ⟨?_, ?_, ?_, ?_, ?_, ?_, ?_, ?_⟩
  · exact stepLeaves_stored (.add x y) rfl (stored_addRegisters (m.fetched _) x y)
  · exact stepLeaves_stored (.subtract x y) rfl (stored_storeDifference _ x _ _)
  · exact stepLeaves_stored (.subtractFrom x y) rfl (stored_storeDifference _ x _ _)
  · exact stepLeaves_stored (.addByte x k) rfl (stored_setReg (by rw [UInt8.toNat_add]; rfl))
  · exact stepLeaves_stored (.or x y) rfl (stored_setReg (by rw [UInt8.toNat_or]; rfl))
  · exact stepLeaves_stored (.and x y) rfl (stored_setReg (by rw [UInt8.toNat_and]; rfl))
  · exact stepLeaves_stored (.xor x y) rfl (stored_setReg (by rw [UInt8.toNat_xor]; rfl))
  · refine stepLeaves_of_execute (.addToIndex x) rfl ?_
    exact { indexAdvanced_addToIndex (m.fetched _) x with }

/-- A new machine whose program of two words begins by setting a register, after that. -/
theorem after_setByte {program : Array UInt8} {k : UInt8} {word : Nat}
    (hm : m = (((Machine.new ⟨Pacer.defaultClockSpeed, .zero⟩ false).load program).machine.step
      fun _ => 0).machine)
    (hsize : program.size = 4)
    (hset : program[0].toNat * 256 + program[1].toNat = byteWord 0x6 x k)
    (hword : program[2].toNat * 256 + program[3].toNat = word) :
    Reachable m ∧ m.memory.word? m.pc = some word ∧ m.reg x = k := by
  have hfits : program.size ≤ maxProgramSize := by
    rw [hsize]
    decide
  generalize hstart : ((Machine.new ⟨Pacer.defaultClockSpeed, .zero⟩ false).load program).machine =
    started at hm
  have hstarted : Reachable started := hstart ▸ (reachable_default false).load program
  have hpc : started.pc = programAddress := hstart ▸ pc_of_load hfits
  have hfirst : started.memory.word? started.pc = some (byteWord 0x6 x k) :=
    hstart ▸ word?_at_start hfits (by omega) hset
  have hnext : started.memory.word? (programAddress + 2) = some word :=
    hstart ▸ word?_of_load_eq 2 hfits rfl (by omega) hword
  have hreachable : Reachable m := hm ▸ hstarted.step fun _ => 0
  rw [step_of_execute hfirst (.setByte x k) rfl] at hm
  refine ⟨hreachable, ?_, ?_⟩
  · rw [hm]
    show started.memory.word? (started.pc + 2) = some word
    rw [hpc, hnext]
  · rw [hm]
    exact reg_setReg_self _ x k

/-- The flag register twice over: 255 and 255 make 254 and not the carry. -/
theorem sum_wins_over_carry :
    let started := ((Machine.new ⟨Pacer.defaultClockSpeed, .zero⟩ false).load
      #[0x6F, 0xFF, 0x8F, 0xF4]).machine
    let m := (started.step fun _ => 0).machine
    Reachable m ∧ m.memory.word? m.pc = some (registersWord 0x8 0xF 0xF 0x4) ∧
      (m.step fun _ => 0).stop = none ∧ ((m.step fun _ => 0).machine.reg 0xF).toNat = 254 := by
  intro started m
  obtain ⟨hreachable, hword, hflag⟩ : Reachable m ∧
      m.memory.word? m.pc = some (registersWord 0x8 0xF 0xF 0x4) ∧ m.reg 0xF = 0xFF :=
    after_setByte rfl rfl (by decide) (by decide)
  obtain ⟨hreturns, hstored⟩ := (results_of_operands m (fun _ => 0) 0xF 0xF 0).1 hword
  have hresult := hstored.result
  rw [hflag] at hresult
  exact ⟨hreachable, hword, hreturns, Int.natCast_inj.mp hresult⟩

theorem toNat_reg_setFlag (x : Fin 16) (flag : Bool) :
    ((m.setFlag flag).reg x).toNat = if x = flagRegister then flag.toNat else (m.reg x).toNat := by
  by_cases hx : x = flagRegister
  · rw [if_pos hx, hx, reg_setFlag]
    cases flag <;> rfl
  · rw [if_neg hx, reg_setFlag_of_ne hx]

theorem stored_shiftRight (m : Machine) (x : Fin 16) :
    Stored x ((if x = flagRegister then ((m.reg x).toNat.testBit 0).toNat
        else (m.reg x).toNat) >>> 1 : Nat)
      (some ((m.reg x).toNat.testBit 0)) m (m.shiftRight x) := by
  refine stored_flagged ?_
  rw [UInt8.toNat_shiftRight, toNat_reg_setFlag]
  rfl

theorem stored_shiftLeft (m : Machine) (x : Fin 16) :
    Stored x (2 * (if x = flagRegister then ((m.reg x).toNat.testBit 7).toNat
        else (m.reg x).toNat) % 256 : Nat)
      (some ((m.reg x).toNat.testBit 7)) m (m.shiftLeft x) := by
  refine stored_flagged ?_
  rw [UInt8.toNat_shiftLeft, toNat_reg_setFlag, Nat.shiftLeft_eq, Nat.mul_comm]
  rfl

/-- A shift moves the last bit on its side into the flag. It shifts the register as it was,
unless that is the flag register: there it shifts the flag. -/
theorem shifts_follow_flag (m : Machine) (stream : RandomBytes) (x y : Fin 16) :
    let a : Nat := (m.reg x).toNat
    m.StepLeaves stream (registersWord 0x8 x y 0x6)
        (Stored x ((if x = flagRegister then (a.testBit 0).toNat else a) >>> 1 : Nat)
          (some (a.testBit 0)) m) ∧
      m.StepLeaves stream (registersWord 0x8 x y 0xE)
        (Stored x (2 * (if x = flagRegister then (a.testBit 7).toNat else a) % 256 : Nat)
          (some (a.testBit 7)) m) := by
  intro a
  constructor
  · exact stepLeaves_stored (.shiftRight x y) rfl (stored_shiftRight (m.fetched _) x)
  · exact stepLeaves_stored (.shiftLeft x y) rfl (stored_shiftLeft (m.fetched _) x)

/-- Twice 129 is 2, and the bit that is lost is in the flag. -/
theorem shifted_bit_is_kept_in_flag :
    let started := ((Machine.new ⟨Pacer.defaultClockSpeed, .zero⟩ false).load
      #[0x60, 0x81, 0x80, 0x0E]).machine
    let m := (started.step fun _ => 0).machine
    Reachable m ∧ m.memory.word? m.pc = some (registersWord 0x8 0x0 0x0 0xE) ∧
      (m.step fun _ => 0).stop = none ∧ ((m.step fun _ => 0).machine.reg 0x0).toNat = 2 ∧
      (m.step fun _ => 0).machine.reg flagRegister = 1 := by
  intro started m
  obtain ⟨hreachable, hword, hoperand⟩ : Reachable m ∧
      m.memory.word? m.pc = some (registersWord 0x8 0x0 0x0 0xE) ∧ m.reg 0x0 = 0x81 :=
    after_setByte rfl rfl (by decide) (by decide)
  obtain ⟨hreturns, hstored⟩ := (shifts_follow_flag m (fun _ => 0) 0x0 0x0).2 hword
  have hresult := Int.natCast_inj.mp hstored.result
  have hflag := hstored.flag (by decide)
  rw [hoperand] at hresult hflag
  exact ⟨hreachable, hword, hreturns, hresult, hflag⟩

/-- Whatever the flag register holds, a shift to the right leaves nothing of it. -/
theorem flag_after_shiftRight (stream : RandomBytes)
    (hword : m.memory.word? m.pc = some (registersWord 0x8 flagRegister y 0x6)) :
    ((m.step stream).machine.reg flagRegister).toNat = 0 := by
  have hleaves : m.StepLeaves stream (registersWord 0x8 flagRegister y 0x6) _ :=
    stepLeaves_stored (.shiftRight flagRegister y) rfl
      (stored_shiftRight (m.fetched _) flagRegister)
  have hresult := Int.natCast_inj.mp (hleaves hword).2.result
  rw [if_pos rfl] at hresult
  rw [hresult]
  cases Nat.testBit _ 0 <;> rfl

/-- In the flag register 2 is not halved to 1: its last bit is, to 0. -/
theorem shift_loses_flag_register :
    let started := ((Machine.new ⟨Pacer.defaultClockSpeed, .zero⟩ false).load
      #[0x6F, 0x02, 0x8F, 0x06]).machine
    let m := (started.step fun _ => 0).machine
    Reachable m ∧ m.memory.word? m.pc = some (registersWord 0x8 0xF 0x0 0x6) ∧
      (m.reg 0xF).toNat = 2 ∧
      ((m.step fun _ => 0).machine.reg 0xF).toNat ≠ (m.reg 0xF).toNat >>> 1 := by
  intro started m
  obtain ⟨hreachable, hword, hflag⟩ : Reachable m ∧
      m.memory.word? m.pc = some (registersWord 0x8 0xF 0x0 0x6) ∧ m.reg 0xF = 0x02 :=
    after_setByte rfl rfl (by decide) (by decide)
  have hlost : ((m.step fun _ => 0).machine.reg 0xF).toNat = 0 := flag_after_shiftRight _ hword
  refine ⟨hreachable, hword, by rw [hflag]; rfl, ?_⟩
  rw [hlost, hflag]
  decide

end Chip8.Machine
