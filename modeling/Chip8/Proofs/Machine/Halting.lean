import Chip8.Proofs.Machine.Reachable

/-!
# When the machine halts

Six instructions can fail, and each of them fails for one reason only: a call
without room, a return without a return address, and four accesses of a block
that ends beyond memory. On a reachable machine nothing else goes wrong. The
index is never below zero, so a block is never read short or written unevenly,
and the delay timer always fits into a register.

A failure leaves nothing behind but the marks of the fetch. A program counter
beyond memory stays there, whatever is done with the machine, until a program is
loaded.
-/
namespace Chip8

/-- Why a block of so many bytes at the index cannot be read or written. -/
def Machine.blockFault? (m : Machine) (length : Nat) : Option Fault :=
  if Memory.Holds memorySize m.i length then none
  else some (.memory (.outside (m.i + length - 1) m.memory.top))

/-- Why an instruction fails on a machine that is in range. -/
def Instruction.fault? (m : Machine) : Instruction → Option Fault
  | call _ => if 64 ≤ m.stack.depth then some (.stack .overflow) else none
  | ret => if m.stack.depth = 0 then some (.stack .underflow) else none
  | draw _ _ n => m.blockFault? n.val
  | storeDigits _ => m.blockFault? 3
  | storeRegisters x | loadRegisters x => m.blockFault? (x.val + 1)
  | _ => none

theorem Instruction.fault?_call (m : Machine) (a : Fin 4096) :
    (call a).fault? m =
      if 64 ≤ m.stack.depth then some (.stack .overflow) else none := rfl

theorem Instruction.fault?_ret (m : Machine) :
    ret.fault? m = if m.stack.depth = 0 then some (.stack .underflow) else none := rfl

namespace Machine
variable {m : Machine} {stream : RandomBytes} {fault : Fault}

theorem InRange.callTo_eq_error_iff (h : m.InRange) {a : Fin 4096} :
    callTo a.val m = .error fault m ↔ (Instruction.call a).fault? m = some fault := by
  have hcapacity : m.stack.capacity ≤ m.stack.depth ↔ 64 ≤ m.stack.depth := by
    rw [h.capacity]
    omega
  rw [Instruction.fault?_call, callTo_apply]
  by_cases hfull : 64 ≤ m.stack.depth
  · simp [hcapacity, hfull]
  · simp [hcapacity, hfull]

theorem returnFromCall_eq_error_iff :
    returnFromCall m = .error fault m ↔ Instruction.ret.fault? m = some fault := by
  rw [Instruction.fault?_ret, returnFromCall_apply]
  unfold CallStack.depth
  cases htop : m.stack.items.back? with
  | none =>
      have hempty := Array.back?_eq_none_iff.mp htop
      simp [hempty]
  | some address =>
      have hsize : m.stack.items.size ≠ 0 := by
        intro hsize
        rw [Array.eq_empty_of_size_eq_zero hsize] at htop
        cases htop
      simp [hsize]

theorem InRange.readBlock_or_fault (h : m.InRange) (length : Nat) :
    (∃ block, m.memory.readBlock m.i length = .ok block ∧ block.size = length ∧
      m.blockFault? length = none) ∨
    ∃ e, m.memory.readBlock m.i length = .error e ∧ m.blockFault? length = some (.memory e) := by
  have hread := Memory.readBlock_eq m.memory h.index.1 (Int.natCast_nonneg length)
  unfold blockFault?
  by_cases hin : Memory.Holds memorySize m.i length
  · rw [if_pos hin] at hread
    have hsize := Memory.size_of_readBlock h.index.1 (Int.natCast_nonneg length) hread
    exact .inl ⟨_, hread, Int.ofNat_inj.mp hsize, if_pos hin⟩
  · rw [if_neg hin] at hread
    exact .inr ⟨_, hread, if_neg hin⟩

theorem InRange.drawSprite_eq_error_iff (h : m.InRange) {x y n : Fin 16} :
    drawSprite x y n m = .error fault m ↔ m.blockFault? n.val = some fault := by
  rw [drawSprite_apply]
  rcases h.readBlock_or_fault n.val with ⟨block, hread, -, hnone⟩ | ⟨e, hread, hsome⟩
  · simp [hread, hnone]
  · simp [hread, hsome]

theorem InRange.loadRegisters_eq_error_iff (h : m.InRange) {x : Fin 16} :
    loadRegisters x m = .error fault m ↔ m.blockFault? (x.val + 1) = some fault := by
  rw [loadRegisters_apply]
  rcases h.readBlock_or_fault (x.val + 1) with ⟨block, hread, hsize, hnone⟩ | ⟨e, hread, hsome⟩
  · simp only [hread, hnone, hsize]
    simp
  · simp only [hread, hsome]
    simp

theorem InRange.store_eq_error_iff (h : m.InRange) {block : Array UInt8} :
    store block m = .error fault m ↔ m.blockFault? block.size = some fault := by
  show onMemory (Memory.writeBlock m.i block) m = .error fault m ↔ _
  unfold blockFault?
  rw [onMemory_writeBlock m block h.index.1]
  by_cases hin : Memory.Holds memorySize m.i block.size
  · simp [hin]
  · simp [hin]

/-- On a machine that is in range an instruction fails as the table of faults has it. -/
theorem InRange.execute_eq_error_iff (h : m.InRange) (i : Instruction) :
    i.execute stream m = .error fault m ↔ i.fault? m = some fault := by
  cases i with
  | call t => exact h.callTo_eq_error_iff
  | ret => exact returnFromCall_eq_error_iff
  | draw x y n => exact h.drawSprite_eq_error_iff
  | storeDigits x =>
      rw [Instruction.execute_storeDigits]
      exact h.store_eq_error_iff
  | storeRegisters x =>
      rw [Instruction.execute_storeRegisters, h.store_eq_error_iff, m.size_firstRegisters x]
      rfl
  | loadRegisters x => exact h.loadRegisters_eq_error_iff
  | getDelay x =>
      show getDelay x m = .error fault m ↔ none = some fault
      rw [getDelay_apply, if_pos h.delay]
      exact iff_of_false nofun nofun
  | _ =>
      constructor
      · intro he
        cases he
      · intro hfault
        cases hfault

end Machine

/-- The halt that a fault leads to, if it is not passed on. -/
def Fault.haltKind? : Fault → Option HaltKind
  | pastEnd _ | memory (.outside _ _) => some .outOfBounds
  | stack .overflow => some .stackOverflow
  | stack .underflow => some .stackUnderflow
  | memory .unequalBlock | notAByte => none

theorem Machine.haltOn_eq_halted_iff {m : Machine} {fault : Fault} {kind : HaltKind} :
    (∃ report, m.haltOn fault = .halted kind report) ↔ fault.haltKind? = some kind := by
  rcases fault with pc | (⟨address, top⟩ | _) | (_ | _) | _ <;>
    simp [Machine.haltOn, Machine.haltOnStack, Machine.halt, Fault.haltKind?]

namespace Machine
variable {m : Machine} {stream : RandomBytes} {kind : HaltKind}

/-- When a machine halts and how, told from the word at the program counter. A
sprite without rows is left out. -/
inductive Halts (m : Machine) : HaltKind → Prop
  | pastEnd : memorySize ≤ m.pc + 1 → Halts m .outOfBounds
  | call (a : Fin 4096) : m.memory.word? m.pc = some (addressWord 0x2 a) →
      m.stack.depth = 64 → Halts m .stackOverflow
  | ret : m.memory.word? m.pc = some 0x00EE → m.stack.depth = 0 → Halts m .stackUnderflow
  | storeDigits (x : Fin 16) : m.memory.word? m.pc = some (byteWord 0xF x 0x33) →
      memorySize ≤ m.i + 2 → Halts m .outOfBounds
  | storeRegisters (x : Fin 16) : m.memory.word? m.pc = some (byteWord 0xF x 0x55) →
      memorySize ≤ m.i + x.val → Halts m .outOfBounds
  | loadRegisters (x : Fin 16) : m.memory.word? m.pc = some (byteWord 0xF x 0x65) →
      memorySize ≤ m.i + x.val → Halts m .outOfBounds
  | draw (x y n : Fin 16) : m.memory.word? m.pc = some (registersWord 0xD x y n) →
      1 ≤ n.val → memorySize ≤ m.i + n.val - 1 → Halts m .outOfBounds

/-- A block that is not empty cannot be accessed exactly if it ends beyond memory. -/
theorem InRange.blockFault?_halts_iff (h : m.InRange) {length : Nat}
    (hlength : 1 ≤ length) :
    (m.blockFault? length).bind Fault.haltKind? = some kind ↔
      memorySize < m.i + length ∧ kind = .outOfBounds := by
  have hindex := h.index
  have hholds : Memory.Holds memorySize m.i length ↔ m.i + length ≤ memorySize := by
    unfold Memory.Holds
    omega
  unfold blockFault?
  by_cases hin : m.i + length ≤ memorySize
  · rw [if_pos (hholds.mpr hin)]
    simp only [Option.bind_none, reduceCtorEq, false_iff]
    omega
  · rw [if_neg (fun hheld => hin (hholds.mp hheld))]
    simp only [Option.bind_some, Fault.haltKind?, Option.some.injEq, Int.not_le.mp hin, true_and,
      eq_comm]

theorem call_halts_iff {a : Fin 4096} :
    ((Instruction.call a).fault? m).bind Fault.haltKind? = some kind ↔
      64 ≤ m.stack.depth ∧ kind = .stackOverflow := by
  rw [Instruction.fault?_call]
  by_cases hfull : 64 ≤ m.stack.depth
  · simp [hfull, Fault.haltKind?, eq_comm]
  · simp [hfull]

theorem ret_halts_iff :
    (Instruction.ret.fault? m).bind Fault.haltKind? = some kind ↔
      m.stack.depth = 0 ∧ kind = .stackUnderflow := by
  rw [Instruction.fault?_ret]
  by_cases hempty : m.stack.depth = 0
  · simp [hempty, Fault.haltKind?, eq_comm]
  · simp [hempty]

/-- On the word that was fetched, a halt is a fault of the instruction. -/
theorem InRange.fault_of_halts (h : m.InRange) {word : Nat} {i : Instruction}
    (hw : m.memory.word? m.pc = some word) (hi : Instruction.StandsFor word i)
    (hhalts : Halts m kind) : (i.fault? m).bind Fault.haltKind? = some kind := by
  -- Every halt but the first names a word of the table, which is the one fetched.
  have same {word' : Nat} {j : Instruction} (hw' : m.memory.word? m.pc = some word')
      (hj : Instruction.StandsFor word' j) : i = j := by
    rw [hw, Option.some.injEq] at hw'
    exact hi.unique (hw' ▸ hj)
  cases hhalts with
  | pastEnd hpc =>
      have hin := Memory.bounds_of_word? hw
      omega
  | call a hword hdepth =>
      obtain rfl := same hword (.call a)
      exact call_halts_iff.mpr ⟨Nat.le_of_eq hdepth.symm, rfl⟩
  | ret hword hdepth =>
      obtain rfl := same hword .ret
      exact ret_halts_iff.mpr ⟨hdepth, rfl⟩
  | storeDigits x hword hout =>
      obtain rfl := same hword (.storeDigits x)
      exact (h.blockFault?_halts_iff (by decide)).mpr ⟨by omega, rfl⟩
  | storeRegisters x hword hout =>
      obtain rfl := same hword (.storeRegisters x)
      exact (h.blockFault?_halts_iff (Nat.succ_pos _)).mpr ⟨by omega, rfl⟩
  | loadRegisters x hword hout =>
      obtain rfl := same hword (.loadRegisters x)
      exact (h.blockFault?_halts_iff (Nat.succ_pos _)).mpr ⟨by omega, rfl⟩
  | draw x y n hword hn hout =>
      obtain rfl := same hword (.draw x y n)
      exact (h.blockFault?_halts_iff hn).mpr ⟨by omega, rfl⟩

theorem InRange.halts_of_fault (h : m.InRange) {word : Nat} {i : Instruction}
    (hw : m.memory.word? m.pc = some word) (hi : Instruction.StandsFor word i)
    (hrows : ∀ x y, word ≠ registersWord 0xD x y 0)
    (hfault : (i.fault? m).bind Fault.haltKind? = some kind) : Halts m kind := by
  cases hi with
  | call a =>
      obtain ⟨hfull, rfl⟩ := call_halts_iff.mp hfault
      exact .call a hw (Nat.le_antisymm h.depth hfull)
  | ret =>
      obtain ⟨hempty, rfl⟩ := ret_halts_iff.mp hfault
      exact .ret hw hempty
  | draw x y n =>
      have hn : 1 ≤ n.val := by
        refine Nat.pos_of_ne_zero fun hzero => hrows x y ?_
        rw [show n = 0 from Fin.ext hzero]
      obtain ⟨hout, rfl⟩ := (h.blockFault?_halts_iff hn).mp hfault
      exact .draw x y n hw hn (by omega)
  | storeDigits x =>
      obtain ⟨hout, rfl⟩ := (h.blockFault?_halts_iff (by decide)).mp hfault
      exact .storeDigits x hw (by omega)
  | storeRegisters x =>
      obtain ⟨hout, rfl⟩ := (h.blockFault?_halts_iff (Nat.succ_pos _)).mp hfault
      exact .storeRegisters x hw (by omega)
  | loadRegisters x =>
      obtain ⟨hout, rfl⟩ := (h.blockFault?_halts_iff (Nat.succ_pos _)).mp hfault
      exact .loadRegisters x hw (by omega)
  | _ => cases hfault

theorem haltKind?_of_blockFault? {length : Nat} {fault : Fault}
    (hfault : m.blockFault? length = some fault) : fault.haltKind? = some .outOfBounds := by
  unfold blockFault? at hfault
  split at hfault
  · cases hfault
  · cases hfault
    rfl

/-- No fault of a machine in range is passed on. -/
theorem haltKind?_of_fault? {i : Instruction} {fault : Fault}
    (hfault : i.fault? m = some fault) : ∃ kind, fault.haltKind? = some kind := by
  cases i with
  | call a =>
      rw [Instruction.fault?_call] at hfault
      split at hfault
      · cases hfault
        exact ⟨.stackOverflow, rfl⟩
      · cases hfault
  | ret =>
      rw [Instruction.fault?_ret] at hfault
      split at hfault
      · cases hfault
        exact ⟨.stackUnderflow, rfl⟩
      · cases hfault
  | draw | storeDigits | storeRegisters | loadRegisters =>
      exact ⟨.outOfBounds, haltKind?_of_blockFault? hfault⟩
  | _ => cases hfault

/-- Whatever stops a step of a machine in range halts it. -/
theorem InRange.halted_of_stop (h : m.InRange) {stop : Stop}
    (hstop : (m.step stream).stop = some stop) : ∃ kind report, stop = .halted kind report := by
  have hs := stepped stream m
  generalize m.step stream = o at hs hstop
  cases hs with
  | strayed =>
      cases hstop
      exact ⟨_, _, rfl⟩
  | skipped => cases hstop
  | completed => cases hstop
  | failed hw hi he =>
      cases hstop
      obtain ⟨kind, hkind⟩ :=
        haltKind?_of_fault? (((h.fetched hw).execute_eq_error_iff _).mp he)
      obtain ⟨report, hreport⟩ := haltOn_eq_halted_iff.mpr hkind
      exact ⟨kind, report, hreport⟩

/-- A step that stops halts the machine, and only the marks of the fetch are left. -/
theorem Reachable.step_returns_or_halts (h : Reachable m) (stream : RandomBytes) :
    (m.step stream).stop = none ∨
      (∃ kind report, (m.step stream).stop = some (.halted kind report)) ∧
        ((m.memory.word? m.pc = none ∧ (m.step stream).machine = { m with origin := m.pc }) ∨
          ∃ word, m.memory.word? m.pc = some word ∧
            (m.step stream).machine =
              { m with
                origin := m.pc
                pc := m.pc + 2
                opcode := word
                fields := Fields.ofOpcode word }) := by
  have hhalted (stop : Stop) (hstop : (m.step stream).stop = some stop) :=
    h.inRange.halted_of_stop hstop
  have hs := stepped stream m
  generalize m.step stream = o at hs hhalted ⊢
  cases hs with
  | skipped => exact .inl rfl
  | completed => exact .inl rfl
  | strayed hw =>
      obtain ⟨kind, report, hstop⟩ := hhalted _ rfl
      exact .inr ⟨⟨kind, report, congrArg some hstop⟩, .inl ⟨hw, rfl⟩⟩
  | failed hw =>
      obtain ⟨kind, report, hstop⟩ := hhalted _ rfl
      exact .inr ⟨⟨kind, report, congrArg some hstop⟩, .inr ⟨_, hw, rfl⟩⟩

/-- A sprite that reaches beyond memory, when VF is set, a pixel is lit and memory is not blank. -/
theorem sprite_beyond_memory_changes_nothing :
    let program : Array UInt8 := #[0xD0, 0x05, 0x6F, 0x07, 0xAF, 0xFE, 0xD0, 0x05]
    let step : Operation := .step fun _ => 0
    let m := (Machine.new ⟨Pacer.defaultClockSpeed, .zero⟩ false).performAll
      [.load program, step, step, step]
    let after := (m.step fun _ => 0).machine
    Reachable m ∧ (∃ kind report, (m.step fun _ => 0).stop = some (.halted kind report)) ∧
      (m.reg flagRegister = 7 ∧ after.reg flagRegister = 7) ∧
      (m.screen.pixels[0] = true ∧ after.screen = m.screen) ∧ after.memory = m.memory := by
  intro program step m after
  have hreachable : Reachable m := (reachable_default false).performAll _
  obtain ⟨hflag, hlit, hstops⟩ : m.reg flagRegister = 7 ∧ m.screen.pixels[0] = true ∧
      (m.step fun _ => 0).stop.isSome = true := by decide +kernel
  clear_value m
  rcases hreachable.step_returns_or_halts fun _ => 0 with hnone | ⟨hhalted, hleft⟩
  · rw [hnone] at hstops
    cases hstops
  · have hkept : after.v = m.v ∧ after.screen = m.screen ∧ after.memory = m.memory := by
      rcases hleft with ⟨-, hleft⟩ | ⟨word, -, hleft⟩
      · simp only [after, hleft, and_self]
      · simp only [after, hleft, and_self]
    obtain ⟨hv, hscreen, hmemory⟩ := hkept
    have hflag' : after.reg flagRegister = 7 := by
      rw [reg, hv]
      exact hflag
    exact ⟨hreachable, hhalted, ⟨hflag, hflag'⟩, ⟨hlit, hscreen⟩, hmemory⟩

theorem word?_of_beyond (hpc : memorySize ≤ m.pc + 1) : m.memory.word? m.pc = none :=
  Memory.word?_eq_none_iff.mpr (.inr hpc)

theorem step_beyond (hpc : memorySize ≤ m.pc + 1) :
    ∃ report, ∀ memory stream, step stream { m with memory } =
      .stopped { m with origin := m.pc, memory } (.halted .outOfBounds report) :=
  ⟨⟨m.strayed.dump "???", (Fault.pastEnd m.pc).message, m.opcode, m.pc⟩, fun memory _ =>
    step_of_word?_eq_none (m := { m with memory }) (word?_of_beyond hpc)⟩

theorem load_beyond {program : Array UInt8} (hsize : maxProgramSize < program.size) :
    (m.load program).machine.pc = m.pc := by
  rw [load_eq, if_neg (Nat.not_le.mpr hsize)]
  simp only [Outcome.stopped, fontLaid]

/-- Beyond memory the program counter stays, unless a program is loaded. -/
theorem perform_beyond {pc : Int} (hpc : memorySize ≤ pc + 1) {o : Operation}
    (hload : ∀ program, o = .load program → maxProgramSize < program.size) (h : m.pc = pc) :
    (o.perform m).machine.pc = pc := by
  have hstep (stream : RandomBytes) (m : Machine) (h : m.pc = pc) :
      (step stream m).machine.pc = pc := by
    subst h
    rw [step_of_word?_eq_none (word?_of_beyond hpc)]
    rfl
  -- A tick changes the program counter by its steps only.
  cases o with
  | load program => exact (load_beyond (hload program rfl)).trans h
  | step stream => exact hstep stream m h
  | tick stream elapsed keys =>
      exact tick_preserves (P := fun m => m.pc = pc) elapsed keys (fun _ _ h => h)
        (fun _ _ h => h) (hstep stream) (fun _ h => h) h
  | countDown => exact h
  | press keys =>
      unfold Operation.perform
      dsimp only
      split <;> exact h
  | takeChanged => exact h

theorem performAll_beyond (hpc : memorySize ≤ m.pc + 1) {operations : List Operation}
    (hload : ∀ program, .load program ∈ operations → maxProgramSize < program.size) :
    (m.performAll operations).pc = m.pc := by
  unfold performAll
  generalize hstart : m.pc = pc at hpc ⊢
  induction operations generalizing m with
  | nil => exact hstart
  | cons o operations ih =>
      apply ih (fun program hin => hload program (.tail o hin))
      exact perform_beyond hpc (fun program ho => hload program (ho ▸ .head operations)) hstart

/-- A halt is told from the program counter or from a known word there. -/
theorem Halts.fetches (h : Halts m kind) :
    (memorySize ≤ m.pc + 1 ∧ kind = .outOfBounds) ∨
      ∃ word i, m.memory.word? m.pc = some word ∧ Instruction.StandsFor word i := by
  cases h with
  | pastEnd hpc => exact .inl ⟨hpc, rfl⟩
  | call a hword => exact .inr ⟨_, _, hword, .call a⟩
  | ret hword => exact .inr ⟨_, _, hword, .ret⟩
  | storeDigits x hword => exact .inr ⟨_, _, hword, .storeDigits x⟩
  | storeRegisters x hword => exact .inr ⟨_, _, hword, .storeRegisters x⟩
  | loadRegisters x hword => exact .inr ⟨_, _, hword, .loadRegisters x⟩
  | draw x y n hword => exact .inr ⟨_, _, hword, .draw x y n⟩

theorem InRange.step_halted_iff (h : m.InRange) (stream : RandomBytes)
    (hrows : ∀ x y, m.memory.word? m.pc ≠ some (registersWord 0xD x y 0)) :
    (∃ report, (m.step stream).stop = some (.halted kind report)) ↔ Halts m kind := by
  have hs := stepped stream m
  generalize m.step stream = o at hs ⊢
  cases hs with
  | strayed hw =>
      constructor
      · rintro ⟨report, hstop⟩
        cases hstop
        have hrange := h.pc
        have hout := Memory.word?_eq_none_iff.mp hw
        exact .pastEnd (by omega)
      · intro hhalts
        rcases hhalts.fetches with ⟨-, rfl⟩ | ⟨word, i, hword, -⟩
        · exact ⟨_, rfl⟩
        · cases hw.symm.trans hword
  | @skipped word hw hunknown =>
      constructor
      · rintro ⟨report, hstop⟩
        cases hstop
      · intro hhalts
        rcases hhalts.fetches with ⟨hpc, -⟩ | ⟨word', i, hword, hi⟩
        · cases hw.symm.trans (word?_of_beyond hpc)
        · obtain rfl := Option.some.inj (hw.symm.trans hword)
          exact (hunknown i hi).elim
  | @completed word i after hw hi he =>
      constructor
      · rintro ⟨report, hstop⟩
        cases hstop
      · intro hhalts
        obtain ⟨fault, hfault, -⟩ := Option.bind_eq_some_iff.mp (h.fault_of_halts hw hi hhalts)
        cases he.symm.trans (((h.fetched hw).execute_eq_error_iff i).mpr hfault)
  | @failed word i fault hw hi he =>
      have hfault : i.fault? m = some fault := ((h.fetched hw).execute_eq_error_iff i).mp he
      have hkind : (i.fault? m).bind Fault.haltKind? = fault.haltKind? := by
        rw [hfault, Option.bind_some]
      constructor
      · rintro ⟨report, hstop⟩
        have hhalted := haltOn_eq_halted_iff.mp ⟨report, Option.some.inj hstop⟩
        exact h.halts_of_fault hw hi (fun x y e => hrows x y (e ▸ hw)) (hkind.trans hhalted)
      · intro hhalts
        obtain ⟨report, hreport⟩ :=
          haltOn_eq_halted_iff.mpr (hkind.symm.trans (h.fault_of_halts hw hi hhalts))
        exact ⟨report, congrArg some hreport⟩

/-- The conditions under which a reachable machine halts are exactly those listed,
and a program counter beyond memory halts it at every later step, whatever memory
holds, until a program is loaded. -/
theorem Reachable.step_halts_exactly (h : Reachable m) (stream : RandomBytes)
    (hrows : ∀ x y, m.memory.word? m.pc ≠ some (registersWord 0xD x y 0)) :
    (∀ kind, (∃ report, (m.step stream).stop = some (.halted kind report)) ↔ Halts m kind) ∧
      ((m.step stream).stop = none ↔ ∀ kind, ¬ Halts m kind) ∧
      (memorySize ≤ m.pc + 1 →
        (∀ operations : List Operation,
          (∀ program, .load program ∈ operations → maxProgramSize < program.size) →
            (m.performAll operations).pc = m.pc) ∧
          ∀ later : Machine, later.pc = m.pc → ∃ report, ∀ memory stream,
            Machine.step stream { later with memory } =
              .stopped { later with origin := later.pc, memory }
                (.halted .outOfBounds report)) := by
  refine ⟨fun kind => h.inRange.step_halted_iff stream hrows, ?_, ?_⟩
  · constructor
    · intro hnone kind hhalts
      obtain ⟨report, hstop⟩ := (h.inRange.step_halted_iff stream hrows).mpr hhalts
      cases hnone.symm.trans hstop
    · intro hnever
      cases hstop : (m.step stream).stop with
      | none => rfl
      | some stop =>
          obtain ⟨kind, report, rfl⟩ := h.inRange.halted_of_stop hstop
          exact (hnever kind ((h.inRange.step_halted_iff stream hrows).mp ⟨report, hstop⟩)).elim
  · intro hpc
    refine ⟨fun operations hload => performAll_beyond hpc hload, fun later hlater => ?_⟩
    exact step_beyond (hlater ▸ hpc)

theorem halts_after_jump_to_last_byte :
    let started := ((Machine.new ⟨Pacer.defaultClockSpeed, .zero⟩ false).load #[0x1F, 0xFF]).machine
    let m := (started.step fun _ => 0).machine
    Reachable m ∧ (∃ report, (m.step fun _ => 0).stop = some (.halted .outOfBounds report)) ∧
      (m.performAll [.countDown, .step fun _ => 0, .takeChanged]).pc = 0xFFF := by
  intro started m
  have hword : started.memory.word? started.pc = some (addressWord 0x1 0xFFF) :=
    word?_at_start (by decide) (by decide) (by decide)
  have hstarted : Reachable started := (reachable_default false).load #[0x1F, 0xFF]
  clear_value started
  have hreachable : Reachable m := hstarted.step fun _ => 0
  have hpc : m.pc = 0xFFF := pc_of_jump hword
  clear_value m
  have hbeyond : memorySize ≤ m.pc + 1 := by
    rw [hpc]
    decide
  have hrows (x y : Fin 16) : m.memory.word? m.pc ≠ some (registersWord 0xD x y 0) := by
    rw [word?_of_beyond hbeyond]
    exact nofun
  obtain ⟨hhalts, -, hstays⟩ := hreachable.step_halts_exactly (fun _ => 0) hrows
  have hlater := (hstays hbeyond).1 [.countDown, .step fun _ => 0, .takeChanged] (by simp)
  exact ⟨hreachable, (hhalts .outOfBounds).mpr (.pastEnd hbeyond), hlater.trans hpc⟩

end Machine
end Chip8
