import Chip8.Program.Load
import Chip8.Proofs.Machine.Step
import Chip8.Proofs.Memory.Stored

/-!
# Programs that fit

A program file is read as it is if it fits the memory above the address where programs
start, and is refused otherwise. A machine takes exactly the programs that are read: it
then holds the font and the program, and every other byte is what it was. A program that
is not taken leaves the font behind and changes nothing else.
-/
namespace Chip8

namespace ProgramFile
variable {files : Files} {name : String} {content program : Array UInt8}

/-- To tell whether a file fits it is enough to read one byte more than fits. -/
theorem size_take_readLimit_iff :
    maxProgramSize < (content.take readLimit).size ↔ maxProgramSize < content.size := by
  rw [Array.take_eq_extract, Array.size_extract]
  unfold readLimit
  omega

theorem take_readLimit (h : content.size ≤ maxProgramSize) : content.take readLimit = content := by
  rw [Array.take_eq_extract]
  exact Array.extract_eq_self_of_le (Nat.le_succ_of_le h)

theorem read_of_content (hname : '\x00' ∉ name.toList) (hfile : files name = .ok content) :
    read files name =
      if content.size ≤ maxProgramSize then .ok content else .error (.tooLarge name) := by
  unfold read
  rw [if_neg (by simpa using hname), hfile]
  dsimp only
  by_cases h : content.size ≤ maxProgramSize
  · rw [if_pos h, if_neg (mt size_take_readLimit_iff.mp (Nat.not_lt.mpr h)), take_readLimit h]
    rfl
  · rw [if_neg h, if_pos (size_take_readLimit_iff.mpr (Nat.not_le.mp h))]
    rfl

theorem read_eq_ok_iff :
    read files name = .ok program ↔
      '\x00' ∉ name.toList ∧ files name = .ok program ∧ program.size ≤ maxProgramSize := by
  constructor
  · intro h
    have hname : '\x00' ∉ name.toList := by
      intro hnull
      rw [read, if_pos (by simpa using hnull)] at h
      cases h
    cases hfile : files name with
    | error e =>
        rw [read, if_neg (by simpa using hname), hfile] at h
        cases h
    | ok content =>
        rw [read_of_content hname hfile] at h
        split at h
        · cases h
          exact ⟨hname, rfl, ‹_›⟩
        · cases h
  · rintro ⟨hname, hfile, hsize⟩
    rw [read_of_content hname hfile, if_pos hsize]

end ProgramFile

namespace Machine
variable {m : Machine} {program : Array UInt8}

structure Takes (m : Machine) (program : Array UInt8) (after : Machine) : Prop where
  fontBytes : after.memory.Stores fontAddress font
  programBytes : after.memory.Stores programAddress program
  otherBytes : ∀ k (hk : k < memorySize), fontAddress + font.size ≤ k →
    k < programAddress ∨ programAddress + program.size ≤ k →
    after.memory.bytes[k] = m.memory.bytes[k]
  pc : after.pc = programAddress

theorem stop_load_eq_none_iff : (m.load program).stop = none ↔ program.size ≤ maxProgramSize := by
  rw [load_eq]
  split <;> simp_all [Outcome.stopped]

/-- Loading touches nothing but memory and the program counter. -/
theorem load_touches_only (m : Machine) (program : Array UInt8) :
    (m.load program).machine =
      { m with
        memory := (m.load program).machine.memory
        pc := (m.load program).machine.pc } := by
  by_cases h : program.size ≤ maxProgramSize
  · rw [load_of_fits h]
    simp only [programLaid, fontLaid]
  · rw [load_eq, if_neg h]
    simp only [Outcome.stopped, fontLaid]

theorem pc_fontLaid : m.fontLaid.pc = m.pc := by rw [fontLaid]

theorem getElem_fontLaid {k : Nat} (hk : k < memorySize) (h : fontAddress + font.size ≤ k) :
    m.fontLaid.memory.bytes[k] = m.memory.bytes[k] :=
  Memory.getElem_overlay_of_outside _ _ _ hk (.inr (by rwa [Array.length_toList]))

theorem takes_of_fits (h : program.size ≤ maxProgramSize) :
    m.Takes program (m.load program).machine := by
  have hend : programAddress + program.size ≤ memorySize := by
    simp only [maxProgramSize, programAddress, memorySize] at h ⊢
    omega
  rw [load_of_fits h]
  refine ⟨?_, ?_, ?_, rfl⟩
  · exact (Memory.stores_overlay m.memory.bytes (by decide)).overlay_behind (by decide) _
  · exact Memory.stores_overlay _ hend
  · intro k hk hfont hprogram
    refine (Memory.getElem_overlay_of_outside _ _ _ hk ?_).trans (getElem_fontLaid hk hfont)
    rwa [Array.length_toList]

/-- A program that does not fit is refused for its last byte, and only the font is left behind. -/
theorem load_of_not_fits (h : maxProgramSize < program.size) :
    m.load program = .stopped m.fontLaid
      (.faulted (.memory (.outside (programAddress + program.size - 1) m.memory.top))) := by
  rw [load_eq, if_neg (Nat.not_le.mpr h)]

end Machine
end Chip8
