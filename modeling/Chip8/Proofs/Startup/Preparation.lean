import Chip8.Proofs.Host.Reason
import Chip8.Proofs.Pacing.Budget
import Chip8.Proofs.Program.Load
import Chip8.Startup

/-!
# The preparation of a start-up

What a preparation that succeeds has prepared goes back to the options and to the file they
name. A preparation can fail in many ways, but not because its machine does not take the
program: only programs that fit are read.
-/
namespace Chip8
namespace Startup

structure Findings where
  wish : OptionValue
  muted : OptionValue
  clockSpeed : OptionValue
  speed : Number
  name : String
  program : Array UInt8
  traced : OptionValue

namespace Findings

def machine (f : Findings) : Machine :=
  (machineWith ⟨f.speed, .zero⟩ f.traced.isYes f.program).machine

structure Explains (installed : Installed) (files : ProgramFile.Files) (o : Options)
    (f : Findings) (p : Prepared) : Prop where
  wish : o.frontEnd = some f.wish
  frontEnd : chooseFrontEnd installed f.wish = .ok p.frontEnd
  muted : o.muted = some f.muted
  speaker : p.speaker = chooseSpeaker p.frontEnd f.muted
  clockSpeed : o.clockSpeed = some f.clockSpeed
  speed : chooseClockSpeed f.clockSpeed = .ok f.speed
  positive : Pacer.ofClockSpeed? f.speed = some ⟨f.speed, .zero⟩
  name : o.programName = some (.text f.name)
  program : ProgramFile.read files f.name = .ok f.program
  traced : o.traced = some f.traced
  machine : p.machine = f.machine
  scale : o.scale = some p.scale
  layout : p.layout = o.layout

end Findings

variable {installed : Installed} {files : ProgramFile.Files} {o : Options}

theorem need_eq_ok_iff {α : Type} {name : String} {value : Option α} {a : α} :
    need name value = .ok a ↔ value = some a := by
  cases value with
  | none => exact ⟨nofun, nofun⟩
  | some b =>
      constructor
      · intro h
        cases h
        rfl
      · intro h
        cases h
        rfl

theorem attempt_eq_ok {α : Type} {result : Except Failure α} {a : α}
    {remarks remarks' : Array Remark} (h : attempt result remarks = .ok a remarks') :
    result = .ok a := by
  cases result with
  | error e => cases h
  | ok b =>
      cases h
      rfl

theorem mapError_eq_ok {ε ε' α : Type} {f : ε → ε'} {result : Except ε α} {a : α}
    (h : result.mapError f = .ok a) : result = .ok a := by
  cases result with
  | error e => cases h
  | ok b =>
      cases h
      rfl

theorem chooseName_eq_ok {value : OptionValue} {name : String} (h : chooseName value = .ok name) :
    value = .text name := by
  cases value with
  | text s =>
      cases h
      rfl
  | _ => cases h

theorem readProgram_eq_ok {name : String} {program : Array UInt8}
    (h : readProgram files name = .ok program) : ProgramFile.read files name = .ok program := by
  unfold readProgram at h
  cases hread : ProgramFile.read files name with
  | ok bytes =>
      rw [hread] at h
      cases h
      rfl
  | error e =>
      rw [hread] at h
      cases e <;> cases h

/-- A preparation that succeeds is explained by what it has found out. -/
theorem exists_findings {p : Prepared} {remarks remarks' : Array Remark}
    (h : prepare installed files o remarks = .ok p remarks') :
    ∃ f : Findings, f.Explains installed files o p := by
  obtain ⟨_, _, -, h⟩ := bind_eq_ok_iff.mp h
  obtain ⟨wish, _, hwish, h⟩ := bind_eq_ok_iff.mp h
  obtain ⟨muted, _, hmuted, h⟩ := bind_eq_ok_iff.mp h
  obtain ⟨frontEnd, _, hfrontEnd, h⟩ := bind_eq_ok_iff.mp h
  obtain ⟨_, _, -, h⟩ := bind_eq_ok_iff.mp h
  obtain ⟨clockSpeed, _, hclockSpeed, h⟩ := bind_eq_ok_iff.mp h
  obtain ⟨speed, _, hspeed, h⟩ := bind_eq_ok_iff.mp h
  cases hpacer : Pacer.ofClockSpeed? speed with
  | none =>
      rw [hpacer] at h
      cases h
  | some pacer =>
      rw [hpacer] at h
      obtain rfl := (Pacer.ofClockSpeed?_eq_some_iff.mp hpacer).2
      obtain ⟨_, _, hpure, h⟩ := bind_eq_ok_iff.mp h
      cases hpure
      obtain ⟨value, _, hvalue, h⟩ := bind_eq_ok_iff.mp h
      obtain ⟨name, _, hname, h⟩ := bind_eq_ok_iff.mp h
      obtain ⟨program, _, hprogram, h⟩ := bind_eq_ok_iff.mp h
      obtain ⟨_, _, -, h⟩ := bind_eq_ok_iff.mp h
      obtain ⟨traced, _, htraced, h⟩ := bind_eq_ok_iff.mp h
      obtain ⟨_, _, -, h⟩ := bind_eq_ok_iff.mp h
      cases hstop : (machineWith ⟨speed, .zero⟩ traced.isYes program).stop with
      | some stop =>
          rw [hstop] at h
          cases h
      | none =>
          rw [hstop] at h
          obtain ⟨scale, _, hscale, h⟩ := bind_eq_ok_iff.mp h
          cases h
          obtain rfl := chooseName_eq_ok (attempt_eq_ok hname)
          exact ⟨⟨wish, muted, clockSpeed, speed, name, program, traced⟩, {
            wish := need_eq_ok_iff.mp (attempt_eq_ok hwish)
            frontEnd := mapError_eq_ok (attempt_eq_ok hfrontEnd)
            muted := need_eq_ok_iff.mp (attempt_eq_ok hmuted)
            speaker := rfl
            clockSpeed := need_eq_ok_iff.mp (attempt_eq_ok hclockSpeed)
            speed := attempt_eq_ok hspeed
            positive := hpacer
            name := need_eq_ok_iff.mp (attempt_eq_ok hvalue)
            program := readProgram_eq_ok (attempt_eq_ok hprogram)
            traced := need_eq_ok_iff.mp (attempt_eq_ok htraced)
            machine := rfl
            scale := need_eq_ok_iff.mp (attempt_eq_ok hscale)
            layout := rfl }⟩

/-! ## How a preparation fails -/

def isUnloaded : Failure → Bool
  | .rejected (.memory _) | .stopped _ => true
  | _ => false

theorem isUnloaded_unloaded (stop : Stop) : isUnloaded (unloaded stop) = true := by
  unfold unloaded
  split <;> rfl

theorem failsOnly_attempt {α : Type} {Q : Failure → Prop} {result : Except Failure α}
    (h : ∀ e, result = .error e → Q e) : FailsOnly Q (attempt result) := by
  cases result with
  | ok a => exact .pure a
  | error e => exact .throw (h e rfl)

theorem isUnloaded_of_need {α : Type} {name : String} {value : Option α} {e : Failure}
    (h : need name value = .error e) : isUnloaded e = false := by
  cases value with
  | none =>
      cases h
      rfl
  | some a => cases h

theorem isUnloaded_of_chooseFrontEnd {wish : OptionValue} {e : Failure}
    (h : (chooseFrontEnd installed wish).mapError Failure.rejected = .error e) :
    isUnloaded e = false := by
  obtain ⟨window, terminal⟩ := installed
  cases hchoice : chooseFrontEnd ⟨window, terminal⟩ wish with
  | ok frontEnd =>
      rw [hchoice] at h
      cases h
  | error reason =>
      rw [hchoice] at h
      cases h
      unfold chooseFrontEnd at hchoice
      split at hchoice
      · cases window <;> cases terminal <;> cases hchoice
        rfl
      · split at hchoice
        · cases window <;> cases hchoice
          rfl
        · split at hchoice
          · cases terminal <;> cases hchoice
            rfl
          · split at hchoice <;> cases hchoice
            rfl
      · cases hchoice
        rfl

theorem isUnloaded_of_chooseClockSpeed {wish : OptionValue} {e : Failure}
    (h : chooseClockSpeed wish = .error e) : isUnloaded e = false := by
  unfold chooseClockSpeed at h
  split at h
  · cases h
  · cases h
  · cases h
    rfl

theorem isUnloaded_of_chooseName {value : OptionValue} {e : Failure}
    (h : chooseName value = .error e) : isUnloaded e = false := by
  unfold chooseName nameless at h
  split at h
  · cases h
  · cases h
    split
    · split
      · rfl
      · split <;> rfl
    · rfl

theorem isUnloaded_of_readProgram {name : String} {e : Failure}
    (h : readProgram files name = .error e) : isUnloaded e = false := by
  unfold readProgram at h
  split at h
  · cases h
  · cases h
    rfl
  · cases h
    rfl

/-- A program that was read is taken, so no preparation fails for want of that. -/
theorem prepare_loads (installed : Installed) (files : ProgramFile.Files) (o : Options) :
    FailsOnly (fun e => isUnloaded e = false) (prepare installed files o) := by
  refine .bind (.modify _) fun _ => ?_
  refine .bind (failsOnly_attempt fun _ => isUnloaded_of_need) fun wish => ?_
  refine .bind (failsOnly_attempt fun _ => isUnloaded_of_need) fun muted => ?_
  refine .bind (failsOnly_attempt fun _ => isUnloaded_of_chooseFrontEnd) fun frontEnd => ?_
  refine .bind (.modify _) fun _ => ?_
  refine .bind (failsOnly_attempt fun _ => isUnloaded_of_need) fun clockSpeed => ?_
  refine .bind (failsOnly_attempt fun _ => isUnloaded_of_chooseClockSpeed) fun speed => ?_
  cases Pacer.ofClockSpeed? speed with
  | none => exact .throw_bind rfl
  | some pacer =>
      refine .bind (.pure pacer) fun pacer => ?_
      refine .bind (failsOnly_attempt fun _ => isUnloaded_of_need) fun value => ?_
      refine .bind (failsOnly_attempt fun _ => isUnloaded_of_chooseName) fun name => ?_
      refine .bind_after (failsOnly_attempt fun _ => isUnloaded_of_readProgram) ?_
      intro program remarks remarks' hprogram
      refine .bind (.modify _) fun _ => ?_
      refine .bind (failsOnly_attempt fun _ => isUnloaded_of_need) fun traced => ?_
      refine .bind (.modify _) fun _ => ?_
      -- Whatever was read fits, so the machine has taken it.
      have hread := readProgram_eq_ok (attempt_eq_ok hprogram)
      have hgoes : (machineWith pacer traced.isYes program).stop = none :=
        Machine.stop_load_eq_none_iff.mpr (ProgramFile.read_eq_ok_iff.mp hread).2.2
      rw [hgoes]
      exact .bind (failsOnly_attempt fun _ => isUnloaded_of_need) fun scale => .pure _

/-- A program file is read exactly if a machine takes its content, which is if it fits. A program
that is taken is found where programs start, with the font at the bottom of memory and every
other byte as it was. One that is not taken changes no byte above the font, and the program
counter neither. Loading touches nothing else, and what was read for a start-up is always taken. -/
theorem machine_takes_what_is_read (installed : Installed) (files : ProgramFile.Files)
    (o : Options) (name : String) (m : Machine) (program : Array UInt8) :
    ('\x00' ∉ name.toList → files name = .ok program →
      (program.size ≤ maxProgramSize → ProgramFile.read files name = .ok program) ∧
      (maxProgramSize < program.size → ProgramFile.read files name = .error (.tooLarge name)) ∧
      (ProgramFile.read files name = .ok program ↔ (m.load program).stop = none)) ∧
    ((m.load program).stop = none → m.Takes program (m.load program).machine) ∧
    (∀ stop, (m.load program).stop = some stop →
      (∃ address, stop = .faulted (.memory (.outside address 0xFFF))) ∧
      (m.load program).machine.pc = m.pc ∧
      ∀ k (hk : k < memorySize), 0x50 ≤ k →
        (m.load program).machine.memory.bytes[k] = m.memory.bytes[k]) ∧
    (m.load program).machine =
      { m with
        memory := (m.load program).machine.memory
        pc := (m.load program).machine.pc } ∧
    FailsOnly (fun e => ∀ stop, e ≠ unloaded stop) (prepare installed files o) := by
  refine ⟨fun hname hfile => ⟨fun hfits => ?_, fun hlarge => ?_, ?_⟩, fun hgoes => ?_,
    fun stop hstop => ?_, Machine.load_touches_only m program, ?_⟩
  · exact ProgramFile.read_eq_ok_iff.mpr ⟨hname, hfile, hfits⟩
  · rw [ProgramFile.read_of_content hname hfile, if_neg (Nat.not_le.mpr hlarge)]
  · rw [ProgramFile.read_eq_ok_iff, Machine.stop_load_eq_none_iff]
    exact ⟨fun h => h.2.2, fun hfits => ⟨hname, hfile, hfits⟩⟩
  · exact Machine.takes_of_fits (Machine.stop_load_eq_none_iff.mp hgoes)
  · have hlarge : maxProgramSize < program.size := by
      refine Nat.not_le.mp fun hfits => ?_
      rw [Machine.stop_load_eq_none_iff.mpr hfits] at hstop
      cases hstop
    rw [Machine.load_of_not_fits hlarge] at hstop ⊢
    obtain rfl := Option.some.inj hstop
    exact ⟨⟨_, rfl⟩, Machine.pc_fontLaid, fun k hk habove => Machine.getElem_fontLaid hk habove⟩
  · intro remarks e he stop hunloaded
    have hloads := prepare_loads installed files o remarks e he
    rw [hunloaded, isUnloaded_unloaded] at hloads
    cases hloads

/-- The largest program is taken, and with one byte more it is refused on both sides. -/
theorem largest_program_is_taken :
    let m := Machine.new ⟨Pacer.defaultClockSpeed, .zero⟩ false
    let largest : Array UInt8 := Array.replicate 3584 0xAA
    let larger : Array UInt8 := Array.replicate 3585 0xAA
    ProgramFile.read (fun _ => .ok largest) "test.ch8" = .ok largest ∧
      m.Takes largest (m.load largest).machine ∧
      ProgramFile.read (fun _ => .ok larger) "test.ch8" = .error (.tooLarge "test.ch8") ∧
      (m.load larger).machine.pc = m.pc := by
  intro m largest larger
  have hname : '\x00' ∉ "test.ch8".toList := by decide
  have hlargest : largest.size ≤ maxProgramSize := by
    rw [Array.size_replicate]
    decide
  have hlarger : maxProgramSize < larger.size := by
    rw [Array.size_replicate]
    decide
  obtain ⟨hread, htaken, -⟩ := machine_takes_what_is_read ⟨false, false⟩
    (fun _ => .ok largest) ⟨none, none, none, none, none, none, none⟩ "test.ch8" m largest
  obtain ⟨hread', -, hrefused, -⟩ := machine_takes_what_is_read ⟨false, false⟩
    (fun _ => .ok larger) ⟨none, none, none, none, none, none, none⟩ "test.ch8" m larger
  obtain ⟨hreads, -, hiff⟩ := hread hname rfl
  refine ⟨hreads hlargest, htaken (hiff.mp (hreads hlargest)), (hread' hname rfl).2.1 hlarger, ?_⟩
  have hstop := congrArg Outcome.stop (Machine.load_of_not_fits (m := m) hlarger)
  exact (hrefused _ hstop).2.1

end Startup
end Chip8
