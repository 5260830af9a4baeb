import Chip8.Machine.Step
import Chip8.Proofs.Instruction.Lookup
import Chip8.Proofs.Machine.Effect
import Chip8.Proofs.Pacing.Budget

/-!
# Steps, ticks and loads

What one step can do, in four cases: no word is fetched, the word is unknown, the
instruction is completed, or it fails. Steps, ticks and loads are then taken
apart into the few changes that they are made of, so that a property which those
changes keep is kept by all of them, also when they stop half way.

A step that returns has the effect of the one instruction at the program counter,
or of none if the word there is unknown, and is counted once.
-/
namespace Chip8.Machine

/-- The machine that has fetched a word and is about to carry it out. -/
def fetched (m : Machine) (word : Nat) : Machine :=
  { m with origin := m.pc, pc := m.pc + 2, opcode := word, fields := Fields.ofOpcode word }

/-- The machine that has tried in vain to fetch a word. -/
def strayed (m : Machine) : Machine := { m with origin := m.pc }

def counted (m : Machine) : Machine := { m with ops := m.ops + 1 }

def said (m : Machine) (word : Nat) : Array Remark := (m.fetched word).remark?.toArray

variable {stream : RandomBytes} {m : Machine}

/-- An instruction that is fetched lies wholly in memory. -/
theorem pc_of_word? {word : Nat} (h : m.memory.word? m.pc = some word) :
    0 ≤ m.pc ∧ m.pc ≤ 0xFFE := by
  have hpc := Memory.bounds_of_word? h
  simp only [memorySize] at hpc
  omega

inductive Stepped (stream : RandomBytes) (m : Machine) : Outcome → Prop
  | strayed : m.memory.word? m.pc = none →
      Stepped stream m (.stopped m.strayed (m.strayed.halt .outOfBounds (.pastEnd m.pc)))
  | skipped {word : Nat} : m.memory.word? m.pc = some word →
      (∀ i, ¬ Instruction.StandsFor word i) →
      Stepped stream m ⟨(m.fetched word).counted, m.said word, none⟩
  | completed {word : Nat} {i : Instruction} {after : Machine} :
      m.memory.word? m.pc = some word → Instruction.StandsFor word i →
      i.execute stream (m.fetched word) = .ok () after →
      Stepped stream m ⟨after.counted, m.said word, none⟩
  | failed {word : Nat} {i : Instruction} {fault : Fault} :
      m.memory.word? m.pc = some word → Instruction.StandsFor word i →
      i.execute stream (m.fetched word) = .error fault (m.fetched word) →
      Stepped stream m
        ⟨m.fetched word, m.said word, some ((m.fetched word).haltOn fault)⟩

theorem fetch_apply (m : Machine) :
    fetch m =
      match m.memory.word? m.pc with
      | none => .error (.pastEnd m.pc) m
      | some word => .ok word { m with pc := m.pc + 2 } := by
  show (match m.memory.word? m.pc with | none => _ | some word => _ : MachineM Nat) m = _
  cases m.memory.word? m.pc <;> rfl

theorem step_of_word?_eq_none (h : m.memory.word? m.pc = none) :
    m.step stream = .stopped m.strayed (m.strayed.halt .outOfBounds (.pastEnd m.pc)) := by
  unfold step
  simp only [fetch_apply, h]
  rfl

def decoded (m : Machine) : Machine := { m with fields := Fields.ofOpcode m.opcode }

theorem dispatch_apply (stream : RandomBytes) (m : Machine) :
    dispatch stream m =
      match Instruction.ofOpcode? m.opcode with
      | none => .ok () m.decoded
      | some i => i.execute stream m.decoded := by
  rw [← Instruction.find?_eq]
  show (match Instruction.find? m.opcode with | none => _ | some i => _ : MachineM Unit)
    m.decoded = _
  cases Instruction.find? m.opcode <;> rfl

theorem step_of_word?_eq_some {word : Nat} (h : m.memory.word? m.pc = some word) :
    m.step stream =
      match Instruction.ofOpcode? word with
      | none => ⟨(m.fetched word).counted, m.said word, none⟩
      | some i =>
          match i.execute stream (m.fetched word) with
          | .ok _ after => ⟨after.counted, m.said word, none⟩
          | .error fault left => ⟨left, m.said word, some (left.haltOn fault)⟩ := by
  have hdecoded : decoded { m with origin := m.pc, pc := m.pc + 2, opcode := word } =
      m.fetched word := rfl
  unfold step
  simp only [fetch_apply, h, dispatch_apply, hdecoded]
  cases Instruction.ofOpcode? word with
  | none => rfl
  | some i =>
      dsimp only
      cases i.execute stream (m.fetched word) <;> rfl

theorem step_of_execute {word : Nat} {i : Instruction} {after : Machine}
    (hw : m.memory.word? m.pc = some word) (hi : Instruction.StandsFor word i)
    (he : i.execute stream (m.fetched word) = .ok () after) :
    m.step stream = ⟨after.counted, m.said word, none⟩ := by
  rw [step_of_word?_eq_some hw, hi.ofOpcode?]
  dsimp only
  rw [he]

theorem step_of_fault {word : Nat} {i : Instruction} {fault : Fault} {left : Machine}
    (hw : m.memory.word? m.pc = some word) (hi : Instruction.StandsFor word i)
    (he : i.execute stream (m.fetched word) = .error fault left) :
    m.step stream =
      ⟨m.fetched word, m.said word, some ((m.fetched word).haltOn fault)⟩ := by
  obtain rfl := Instruction.eq_of_execute_eq_error he
  rw [step_of_word?_eq_some hw, hi.ofOpcode?]
  dsimp only
  rw [he]

theorem stepped (stream : RandomBytes) (m : Machine) : Stepped stream m (m.step stream) := by
  cases hw : m.memory.word? m.pc with
  | none =>
      rw [step_of_word?_eq_none hw]
      exact .strayed hw
  | some word =>
      have hlt := Memory.word?_lt hw
      cases hi : Instruction.ofOpcode? word with
      | none =>
          rw [step_of_word?_eq_some hw, hi]
          exact .skipped hw ((Instruction.ofOpcode?_eq_none_iff hlt).mp hi)
      | some i =>
          have hstands := (Instruction.ofOpcode?_eq_some_iff hlt).mp hi
          cases he : i.execute stream (m.fetched word) with
          | ok _ after =>
              rw [step_of_execute hw hstands he]
              exact .completed hw hstands he
          | error fault left =>
              rw [step_of_fault hw hstands he]
              obtain rfl := Instruction.eq_of_execute_eq_error he
              exact .failed hw hstands he

/-- What every step keeps is kept by a run of them, stopped or not. -/
theorem step_keeps (stream : RandomBytes) (m : Machine) :
    (m.step stream).machine.keypad = m.keypad ∧ (m.step stream).machine.pacer = m.pacer ∧
      (m.step stream).machine.traced = m.traced := by
  have hs := stepped stream m
  generalize m.step stream = o at hs ⊢
  cases hs with
  | completed _ _ he =>
      have hshape := Instruction.execute_shape he
      rw [hshape]
      exact ⟨rfl, rfl, rfl⟩
  | _ => exact ⟨rfl, rfl, rfl⟩

theorem stepsFrom_preserves {P : Machine → Prop}
    (hstep : ∀ m, P m → P (step stream m).machine) (n : Nat) {o : Outcome} (h : P o.machine) :
    P (stepsFrom stream n o).machine := by
  induction n generalizing o with
  | zero => exact h
  | succ n ih =>
      unfold stepsFrom
      cases hstop : o.stop with
      | some stop => exact h
      | none =>
          apply ih
          unfold Outcome.andThen
          rw [hstop]
          exact hstep o.machine h

theorem onPacer_apply (elapsed : Number) (m : Machine) :
    onPacer (Pacer.instructionsFor elapsed) m =
      match Pacer.instructionsFor elapsed m.pacer with
      | .ok count pacer => .ok count { m with pacer }
      | .error e _ => .error (.unpaced e) m := by
  unfold onPacer
  cases hdue : Pacer.instructionsFor elapsed m.pacer with
  | ok count pacer => rfl
  | error e left => rw [Pacer.eq_of_instructionsFor_eq_error hdue]

/-- Before its steps a tick takes the keys, unless they are not a snapshot, and then sees
what is due. Without a number of instructions the pacer stays as it was. -/
theorem pace_apply (elapsed : Number) (keys : Array Bool) (m : Machine) :
    pace elapsed keys m =
      match Keypad.ofSnapshot? keys with
      | none => .error (.badSnapshot keys.size) m
      | some keypad =>
          match Pacer.instructionsFor elapsed m.pacer with
          | .ok count pacer => .ok count.toNat { m with keypad, pacer }
          | .error e _ => .error (.unpaced e) { m with keypad } := by
  unfold pace
  cases Keypad.ofSnapshot? keys with
  | none => rfl
  | some keypad =>
      show EStateM.bind (onPacer (Pacer.instructionsFor elapsed)) _ { m with keypad } = _
      simp only [EStateM.bind, onPacer_apply]
      cases Pacer.instructionsFor elapsed m.pacer <;> rfl

/-- A tick is a new keypad, a new pacer, steps and a count down, or some of them. -/
theorem tick_preserves {P : Machine → Prop} (elapsed : Number) (keys : Array Bool)
    (hkeypad : ∀ m keypad, P m → P { m with keypad })
    (hpacer : ∀ m pacer, P m → P { m with pacer })
    (hstep : ∀ m, P m → P (step stream m).machine)
    (hcount : ∀ m, P m → P m.countDown) (h : P m) :
    P (tick stream elapsed keys m).machine := by
  unfold tick
  rw [pace_apply]
  cases Keypad.ofSnapshot? keys with
  | none => exact h
  | some keypad =>
      have hk := hkeypad m keypad h
      dsimp only
      cases Pacer.instructionsFor elapsed m.pacer with
      | error e left => exact hk
      | ok count pacer =>
          have hrun := stepsFrom_preserves hstep count.toNat
            (o := .going { m with keypad, pacer }) (hpacer _ pacer hk)
          show P ((steps stream count.toNat { m with keypad, pacer }).andThen
            fun m => .going m.countDown).machine
          unfold Outcome.andThen
          cases (steps stream count.toNat { m with keypad, pacer }).stop with
          | some stop => exact hrun
          | none => exact hcount _ hrun

def fontLaid (m : Machine) : Machine :=
  { m with memory := ⟨Memory.overlay m.memory.bytes fontAddress font.toList⟩ }

def programLaid (m : Machine) (program : Array UInt8) : Machine :=
  { m with
    memory := ⟨Memory.overlay m.memory.bytes programAddress program.toList⟩
    pc := programAddress }

/-- A program that does not fit leaves nothing behind but the font. -/
theorem load_eq (program : Array UInt8) (m : Machine) :
    m.load program =
      if program.size ≤ maxProgramSize then
        ⟨m.fontLaid.programLaid program, #[.programLoaded program.size programAddress], none⟩
      else .stopped m.fontLaid (.faulted (.memory
        (.outside (programAddress + program.size - 1) m.memory.top))) := by
  have hfont : Memory.Holds memorySize fontAddress font.size := by decide
  have hprogram : Memory.Holds memorySize programAddress program.size ↔
      program.size ≤ maxProgramSize := by
    simp only [Memory.Holds, memorySize, programAddress, maxProgramSize]
    omega
  have hfirst : onMemory (Memory.writeBlock fontAddress font) m = .ok () m.fontLaid := by
    rw [onMemory_writeBlock m font (by decide), if_pos hfont, Int.toNat_natCast, fontLaid]
  have hsecond : onMemory (Memory.writeBlock programAddress program) m.fontLaid = _ :=
    onMemory_writeBlock m.fontLaid program (by decide)
  rw [Int.toNat_natCast] at hsecond
  unfold load install
  by_cases h : program.size ≤ maxProgramSize
  · rw [if_pos (hprogram.mpr h)] at hsecond
    simp only [bind, EStateM.bind, hfirst, hsecond, modify_eq_ok_iff.mpr rfl, if_pos h, programLaid]
  · rw [if_neg (fun hin => h (hprogram.mp hin))] at hsecond
    simp only [bind, EStateM.bind, hfirst, hsecond, if_neg h, Memory.top]

theorem load_of_fits {program : Array UInt8} (hsize : program.size ≤ maxProgramSize) :
    m.load program =
      ⟨m.fontLaid.programLaid program, #[.programLoaded program.size programAddress], none⟩ := by
  rw [load_eq, if_pos hsize]

/-- The words of a program are fetched from where it was loaded. -/
theorem word?_of_load {program : Array UInt8} (hsize : program.size ≤ maxProgramSize) {k : Nat}
    (hk : k + 1 < program.size) :
    (m.load program).machine.memory.word? (programAddress + k : Nat) =
      some (program[k].toNat * 256 + program[k + 1].toNat) := by
  have hin : programAddress + k + 1 < memorySize := by
    simp only [maxProgramSize, programAddress, memorySize] at hsize ⊢
    omega
  have hlow : programAddress + k + 1 - programAddress = k + 1 := by omega
  have hle : programAddress ≤ programAddress + k + 1 := by omega
  rw [load_of_fits hsize, Memory.word?_eq_some hin]
  simp only [programLaid, Memory.getElem_overlay]
  rw [if_pos (Nat.le_add_right _ _), if_pos hle, Nat.add_sub_cancel_left, hlow]
  simp [hk, Nat.lt_of_succ_lt hk]

theorem word?_of_load_eq {program : Array UInt8} {address : Int} {word : Nat} (k : Nat)
    (hsize : program.size ≤ maxProgramSize) (haddress : address = (programAddress + k : Nat))
    (hk : k + 1 < program.size)
    (hword : program[k].toNat * 256 + program[k + 1].toNat = word) :
    (m.load program).machine.memory.word? address = some word := by
  rw [haddress, word?_of_load hsize hk, hword]

theorem pc_of_load {program : Array UInt8} (hsize : program.size ≤ maxProgramSize) :
    (m.load program).machine.pc = programAddress := by
  rw [load_of_fits hsize]
  rfl

theorem stack_load (program : Array UInt8) : (m.load program).machine.stack = m.stack := by
  rw [load_eq]
  split <;> simp only [Outcome.stopped, fontLaid, programLaid]

theorem pacer_load (program : Array UInt8) : (m.load program).machine.pacer = m.pacer := by
  rw [load_eq]
  split <;> simp only [Outcome.stopped, fontLaid, programLaid]

/-- The first word of a program is at the program counter. -/
theorem word?_at_start {program : Array UInt8} {word : Nat}
    (hsize : program.size ≤ maxProgramSize) (hlong : 1 < program.size)
    (hword : program[0].toNat * 256 + program[1].toNat = word) :
    (m.load program).machine.memory.word? (m.load program).machine.pc = some word := by
  rw [pc_of_load hsize, ← hword]
  exact word?_of_load hsize (k := 0) hlong

theorem pc_of_jump {a : Fin 4096} (hword : m.memory.word? m.pc = some (addressWord 0x1 a)) :
    (m.step stream).machine.pc = a.val := by
  rw [step_of_word?_eq_some hword, (Instruction.StandsFor.jump a).ofOpcode?]
  rfl

/-- Neither fetching an instruction nor counting it shows in what it makes of a machine. -/
theorem effect_of_fetched {word : Nat} {i : Instruction} {a : Int} {after : Machine}
    (e : i.Effect a (m.fetched word) after) : i.Effect a m after.counted where
  memory := e.memory
  screen := e.screen
  registers := e.registers
  index := e.index
  delay := e.delay
  sound := e.sound
  stack := e.stack
  pc := e.pc
  returned := e.returned

/-- A step that returns changes what its instruction may change and nothing else.
An unknown word only moves the program counter on by two. -/
theorem step_changes_only (stream : RandomBytes) (m : Machine)
    (h : (m.step stream).stop = none) :
    ∃ word, m.memory.word? m.pc = some word ∧
      ((∃ i, Instruction.StandsFor word i ∧ i.Effect m.pc m (m.step stream).machine) ∨
        (∀ i, ¬ Instruction.StandsFor word i) ∧
          (m.step stream).machine = (m.fetched word).counted) ∧
      (m.step stream).machine.keypad = m.keypad ∧
      (m.step stream).machine.pacer = m.pacer ∧
      (m.step stream).machine.ops = m.ops + 1 := by
  have hs := stepped stream m
  generalize m.step stream = o at h hs ⊢
  cases hs with
  | strayed => cases h
  | failed => cases h
  | @skipped word hw hunknown =>
      exact ⟨word, hw, .inr ⟨hunknown, rfl⟩, rfl, rfl, rfl⟩
  | @completed word i after hw hi he =>
      have hshape := Instruction.execute_shape he
      refine ⟨word, hw, .inl ⟨i, hi, effect_of_fetched (Instruction.execute_effect rfl he)⟩, ?_⟩
      rw [hshape]
      exact ⟨rfl, rfl, rfl⟩

theorem call_changes_only_stack_and_pc :
    let m := ((Machine.new ⟨Pacer.defaultClockSpeed, .zero⟩ false).load #[0x23, 0x00]).machine
    (m.step fun _ => 0).stop = none ∧
      (m.step fun _ => 0).machine.stack.items = m.stack.items.push (m.pc + 2) ∧
      (m.step fun _ => 0).machine.pc = 0x300 ∧
      (m.step fun _ => 0).machine.screen = m.screen := by
  intro m
  have hword : m.memory.word? m.pc = some (addressWord 0x2 0x300) :=
    word?_at_start (by decide) (by decide) (by decide)
  have hstack : m.stack = CallStack.empty stackCapacity := stack_load _
  clear_value m
  have hroom : m.stack.depth < m.stack.capacity := by
    rw [hstack]
    decide
  have hcalls : (Instruction.call 0x300).execute (fun _ => 0)
      (m.fetched (addressWord 0x2 0x300)) = .ok () _ :=
    callTo_eq_ok_iff.mpr ⟨hroom, rfl⟩
  have hreturns : (m.step fun _ => 0).stop = none := by
    rw [step_of_word?_eq_some hword, (Instruction.StandsFor.call 0x300).ofOpcode?]
    dsimp only
    rw [hcalls]
  obtain ⟨word, hw, heffect, -⟩ := step_changes_only (fun _ => 0) m hreturns
  obtain rfl := Option.some.inj (hword.symm.trans hw)
  rcases heffect with ⟨i, hi, e⟩ | ⟨hunknown, -⟩
  · obtain rfl := hi.unique (.call 0x300)
    exact ⟨hreturns, congrArg CallStack.items e.stack, e.pc, e.screen (fun hdraws => hdraws)⟩
  · exact (hunknown _ (.call 0x300)).elim

end Chip8.Machine
