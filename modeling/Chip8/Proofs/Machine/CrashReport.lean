import Chip8.Proofs.Machine.Tick
import Chip8.Proofs.Text.Hex

/-!
# What a crash report names

A crash report tells an opcode and an address twice, in the state line of its dump and in its
last line, and the numbers can be read off its text. The address is marked before the fetch and
the opcode after it. So a report on an instruction that was fetched tells the address of that
instruction and the word that is stored there. If the fetch itself fails, the address is that of
the program counter, where no word is stored, and the opcode is still that of the instruction
before.
-/
namespace Chip8
open Text

/-- The text of a report has an opcode and an address together, in the dump and in the last line. -/
structure CrashReport.Tells (r : CrashReport) (opcode address : Int) : Prop where
  dump : ∃ before after, r.message = before ++ " PC: 0x" ++ hexField 3 address ++ " OP: 0x" ++
    hexField 4 opcode ++ " IN: " ++ after
  ending : ∃ before, r.message = before ++ " (opcode 0x" ++ hexField 4 opcode ++
    " at address 0x" ++ hexField 3 address ++ ")."

/-- The opcode that a report tells is the word in memory at the address that it tells. -/
def CrashReport.NamesInstruction (r : CrashReport) (memory : Memory memorySize) : Prop :=
  ∃ (word : Nat) (address : Int), memory.word? address = some word ∧ r.Tells word address

namespace CrashReport
variable {r : CrashReport} {opcode opcode' address address' : Int} {memory : Memory memorySize}

/-- The opcode and the address can be read off the text. -/
theorem Tells.unique (h : r.Tells opcode address) (h' : r.Tells opcode' address') :
    opcode = opcode' ∧ address = address' := by
  obtain ⟨before, hmessage⟩ := h.ending
  obtain ⟨before', hmessage'⟩ := h'.ending
  have htext := hmessage.symm.trans hmessage'
  have haddressMark : " at address 0x" = " at address 0" ++ "x" := by decide
  have hopcodeMark : " (opcode 0x" = " (opcode 0" ++ "x" := by decide
  -- The marks stand behind each other, so the text is cut at them from its end.
  rw [String.append_left_inj, haddressMark, ← String.append_assoc, ← String.append_assoc] at htext
  obtain ⟨hrest, haddress⟩ := append_hexField_inj htext
  rw [String.append_left_inj, hopcodeMark, ← String.append_assoc, ← String.append_assoc] at hrest
  exact ⟨(append_hexField_inj hrest).2, haddress⟩

theorem Tells.namesInstruction_iff (h : r.Tells opcode address) :
    r.NamesInstruction memory ↔
      ∃ word : Nat, memory.word? address = some word ∧ (word : Int) = opcode := by
  constructor
  · rintro ⟨word, address', hword, htells⟩
    obtain ⟨hopcode, rfl⟩ := h.unique htells
    exact ⟨word, hword, hopcode.symm⟩
  · rintro ⟨word, hword, rfl⟩
    exact ⟨word, address, hword, h⟩

end CrashReport

namespace Machine
variable {m : Machine} {stream : RandomBytes} {fault : Fault} {kind : HaltKind}
  {report : CrashReport}

/-- Every halt is reported by one text, whatever it is due to. -/
theorem report_of_haltOn (h : m.haltOn fault = .halted kind report) :
    report = ⟨m.dump "???", fault.message, m.opcode, m.origin⟩ := by
  unfold haltOn haltOnStack halt at h
  split at h
  · cases h
    rfl
  · cases h
    rfl
  · split at h <;> cases h <;> rfl

theorem exists_front_of_stateLine (m : Machine) (instruction : String) :
    ∃ front, m.stateLine instruction = front ++ " PC: 0x" ++ hexField 3 m.origin ++ " OP: 0x" ++
      hexField 4 m.opcode ++ " IN: " ++ instruction := ⟨_, rfl⟩

theorem tells_of_halt (m : Machine) (reason : String) :
    CrashReport.Tells ⟨m.dump "???", reason, m.opcode, m.origin⟩ m.opcode m.origin where
  dump := by
    obtain ⟨front, hline⟩ := m.exists_front_of_stateLine "???"
    refine ⟨"Emulation halted.\n\n" ++ introduction ++ "Debug info:\n" ++ front,
      "???" ++ "\n" ++ m.stackLines ++ "\n\n" ++ reason ++ " (opcode 0x" ++
        hexField 4 m.opcode ++ " at address 0x" ++ hexField 3 m.origin ++ ").", ?_⟩
    unfold CrashReport.message Machine.dump
    rw [hline]
    simp only [String.append_assoc]
  ending := ⟨_, rfl⟩

theorem tells_of_haltOn (h : m.haltOn fault = .halted kind report) :
    report.Tells m.opcode m.origin := by
  rw [report_of_haltOn h]
  exact m.tells_of_halt fault.message

/-- Where a word is fetched, the report tells that word. -/
theorem report_of_word? {word : Nat} (hw : m.memory.word? m.pc = some word)
    (hstop : (m.step stream).stop = some (.halted kind report)) :
    report.Tells word m.pc ∧ report.NamesInstruction (m.step stream).machine.memory := by
  have hs := stepped stream m
  generalize m.step stream = o at hs hstop ⊢
  cases hs with
  | strayed hnone => cases hw.symm.trans hnone
  | skipped => cases hstop
  | completed => cases hstop
  | failed hw' =>
      obtain rfl := Option.some.inj (hw.symm.trans hw')
      have htells := tells_of_haltOn (Option.some.inj hstop)
      exact ⟨htells, htells.namesInstruction_iff.mpr ⟨word, hw, rfl⟩⟩

/-- Where none is fetched, the report tells the opcode that was at hand before. -/
theorem report_of_beyond (stream : RandomBytes) (hpc : memorySize ≤ m.pc + 1) :
    ∃ report, (m.step stream).stop = some (.halted .outOfBounds report) ∧
      report.Tells m.opcode m.pc ∧ ¬ report.NamesInstruction (m.step stream).machine.memory := by
  have hnone := word?_of_beyond hpc
  have htells := m.strayed.tells_of_halt (Fault.pastEnd m.pc).message
  rw [step_of_word?_eq_none hnone]
  refine ⟨_, rfl, htells, ?_⟩
  rw [htells.namesInstruction_iff]
  rintro ⟨word, hword, -⟩
  cases hnone.symm.trans hword

/-- A report on a reachable machine names an instruction exactly if one was fetched. It then tells
the word at the program counter. Otherwise it tells the address where no word is stored, with the
opcode that was at hand before. -/
theorem Reachable.report_names_instruction_iff (h : Reachable m) (stream : RandomBytes)
    {stop : Stop} (hstop : (m.step stream).stop = some stop) :
    ∃ kind report, stop = .halted kind report ∧
      (report.NamesInstruction (m.step stream).machine.memory ↔ m.pc + 1 < memorySize) ∧
      (m.pc + 1 < memorySize →
        ∃ word : Nat, m.memory.word? m.pc = some word ∧ report.Tells word m.pc) ∧
      (memorySize ≤ m.pc + 1 → kind = .outOfBounds ∧ report.Tells m.opcode m.pc) := by
  obtain ⟨kind, report, rfl⟩ := h.inRange.halted_of_stop hstop
  refine ⟨kind, report, rfl, ?_⟩
  cases hw : m.memory.word? m.pc with
  | some word =>
      obtain ⟨htells, hnames⟩ := report_of_word? hw hstop
      have hin := (Memory.bounds_of_word? hw).2
      exact ⟨iff_of_true hnames hin, fun _ => ⟨word, rfl, htells⟩,
        fun hbeyond => (Int.not_lt.mpr hbeyond hin).elim⟩
  | none =>
      have hrange := h.inRange.pc
      have hout := Memory.word?_eq_none_iff.mp hw
      have hbeyond : memorySize ≤ m.pc + 1 := by omega
      obtain ⟨_, hstop', htells, hnot⟩ := report_of_beyond stream hbeyond
      cases hstop.symm.trans hstop'
      exact ⟨iff_of_false hnot (Int.not_lt.mpr hbeyond),
        fun hin => (Int.not_lt.mpr hbeyond hin).elim, fun _ => ⟨rfl, htells⟩⟩

theorem report_names_stray_return :
    let m := ((Machine.new ⟨Pacer.defaultClockSpeed, .zero⟩ false).load #[0x00, 0xEE]).machine
    let after := m.step fun _ => 0
    Reachable m ∧ ∃ report, after.stop = some (.halted .stackUnderflow report) ∧
      report.NamesInstruction after.machine.memory ∧ report.Tells 0x00EE 0x200 := by
  intro m after
  have hreachable : Reachable m := (reachable_default false).load #[0x00, 0xEE]
  have hword : m.memory.word? m.pc = some 0x00EE :=
    word?_at_start (by decide) (by decide) (by decide)
  have hpc : m.pc = 0x200 := pc_of_load (by decide)
  have hempty : m.stack.depth = 0 := congrArg CallStack.depth (stack_load _)
  clear_value m
  have hin : m.pc + 1 < memorySize := (Memory.bounds_of_word? hword).2
  obtain ⟨-, report, hstop⟩ := step_stray_return (fun _ => 0) hword hempty
  obtain ⟨_, _, ⟨⟩, hnames, htells, -⟩ := hreachable.report_names_instruction_iff _ hstop
  obtain ⟨word, hfetched, htold⟩ := htells hin
  obtain rfl := Option.some.inj (hword.symm.trans hfetched)
  rw [hpc] at htold
  exact ⟨hreachable, report, hstop, hnames.mpr hin, htold⟩

theorem opcode_of_jump {a : Fin 4096} (hword : m.memory.word? m.pc = some (addressWord 0x1 a)) :
    (m.step stream).machine.opcode = addressWord 0x1 a := by
  rw [step_of_word?_eq_some hword, (Instruction.StandsFor.jump a).ofOpcode?]
  rfl

/-- The jump that leads to the last byte of memory is reported as if it stood there. -/
theorem report_after_jump_names_no_instruction :
    let started := ((Machine.new ⟨Pacer.defaultClockSpeed, .zero⟩ false).load #[0x1F, 0xFF]).machine
    let m := (started.step fun _ => 0).machine
    let after := m.step fun _ => 0
    started.memory.word? 0x200 = some 0x1FFF ∧ Reachable m ∧
      ∃ report, after.stop = some (.halted .outOfBounds report) ∧ report.Tells 0x1FFF 0xFFF ∧
        ¬ report.NamesInstruction after.machine.memory := by
  intro started m after
  have hword : started.memory.word? started.pc = some (addressWord 0x1 0xFFF) :=
    word?_at_start (by decide) (by decide) (by decide)
  have hstart : started.pc = 0x200 := pc_of_load (by decide)
  have hreachable : Reachable started := (reachable_default false).load #[0x1F, 0xFF]
  clear_value started
  have hpc : m.pc = 0xFFF := pc_of_jump hword
  have hopcode : m.opcode = 0x1FFF := opcode_of_jump hword
  have hbeyond : memorySize ≤ m.pc + 1 := by
    rw [hpc]
    decide
  obtain ⟨report, hstop, htells, hnot⟩ := m.report_of_beyond (fun _ => 0) hbeyond
  rw [hpc, hopcode] at htells
  rw [hstart] at hword
  exact ⟨hword, hreachable.step fun _ => 0, report, hstop, htells, hnot⟩

end Machine
end Chip8
