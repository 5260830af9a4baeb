import Chip8.Proofs.Machine.Trail
import Chip8.Proofs.Program.Load

/-!
# Saved registers and written digits

The first registers can be saved to memory at the index and filled from there, and the
decimal digits of a register can be written there. What was written stays until a step writes
to one of its addresses, whatever else the steps in between do, so the registers that were
saved come back. To fill registers and to save them at once leaves memory as it is.

Which addresses a step writes to is told by its instruction and the index. A step that stops
writes nothing.
-/
namespace Chip8

namespace TakenStep

def WritesTo (t : TakenStep) (address : Int) : Prop :=
  t.outcome.stop = none ∧ ∃ word i, t.before.memory.word? t.before.pc = some word ∧
    Instruction.StandsFor word i ∧ i.WritesByte t.before.i address

theorem getElem_after {t : TakenStep} {k : Nat} (hk : k < memorySize) (h : ¬ t.WritesTo k) :
    t.after.memory.bytes[k] = t.before.memory.bytes[k] := by
  obtain ⟨stream, m⟩ := t
  have hs := Machine.stepped stream m
  unfold WritesTo after outcome at *
  dsimp only at *
  generalize m.step stream = o at hs h ⊢
  cases hs with
  | strayed | skipped | failed => rfl
  | @completed word i _ hw hi he =>
      have e := Machine.effect_of_fetched (Instruction.execute_effect rfl he)
      exact e.memory k hk fun hwrites => h ⟨rfl, word, i, hw, hi, hwrites⟩

/-- Only the instruction at the program counter can write. -/
theorem not_writesTo {t : TakenStep} {word : Nat} {i : Instruction} {address : Int}
    (hword : t.before.memory.word? t.before.pc = some word) (hi : Instruction.StandsFor word i)
    (h : ¬ i.WritesByte t.before.i address) : ¬ t.WritesTo address := by
  rintro ⟨-, word', i', hword', hi', hwrites⟩
  obtain rfl := Option.some.inj (hword.symm.trans hword')
  obtain rfl := hi.unique hi'
  exact h hwrites

end TakenStep

/-- Three decimal digits at an address make a number, the highest of them first. -/
def Memory.Spells {size : Nat} (m : Memory size) (address : Int) (n : Nat) : Prop :=
  ∃ hundreds tens ones : UInt8,
    m.get? address = some hundreds ∧ m.get? (address + 1) = some tens ∧
      m.get? (address + 2) = some ones ∧
      hundreds.toNat ≤ 9 ∧ tens.toNat ≤ 9 ∧ ones.toNat ≤ 9 ∧
      100 * hundreds.toNat + 10 * tens.toNat + ones.toNat = n

theorem Memory.Stores.spells {size : Nat} {m : Memory size} {address : Nat} {b : UInt8}
    (h : m.Stores address (decimalDigits b)) : m.Spells address b.toNat := by
  have hb := b.toNat_lt
  have hsize : (decimalDigits b).size = 3 := rfl
  refine ⟨b / 100, b / 10 % 10, b % 10, h.get? (k := 0) (by omega), h.get? (k := 1) (by omega),
    h.get? (k := 2) (by omega), ?_, ?_, ?_, ?_⟩
  · show b.toNat / 100 ≤ 9
    omega
  · show b.toNat / 10 % 10 ≤ 9
    omega
  · show b.toNat % 10 ≤ 9
    omega
  · show 100 * (b.toNat / 100) + 10 * (b.toNat / 10 % 10) + b.toNat % 10 = b.toNat
    omega

namespace Machine
variable {m after : Machine} {stream : RandomBytes} {x : Fin 16} {word : Nat} {i : Instruction}
  {block : Array UInt8}

theorem Rests.memory_eq (h : Rests m after) : after.memory = m.memory := by
  unfold Rests at h
  rw [h]

/-- A byte that no step writes to stays as it is. -/
theorem Linked.getElem_eq {trail : List TakenStep} (h : Linked m trail after) {k : Nat}
    (hk : k < memorySize) (hkept : ∀ t ∈ trail, ¬ t.WritesTo k) :
    after.memory.bytes[k] = m.memory.bytes[k] := by
  induction h with
  | nil hrest => rw [hrest.memory_eq]
  | cons hrest _ ih =>
      obtain ⟨hfirst, hlater⟩ := List.forall_mem_cons.mp hkept
      rw [ih hlater, TakenStep.getElem_after hk hfirst, hrest.memory_eq]

/-- A block stays in memory while no step writes to it. -/
theorem Linked.stores {trail : List TakenStep} (h : Linked m trail after) {address : Nat}
    (hm : m.memory.Stores address block)
    (hkept : ∀ t ∈ trail, ∀ k : Nat, address ≤ k → k < address + block.size → ¬ t.WritesTo k) :
    after.memory.Stores address block :=
  hm.congr fun k hk hfirst hlast => h.getElem_eq hk fun t ht => hkept t ht k hfirst hlast

/-- A step that returns has completed its instruction. -/
theorem exists_execute_of_returns (hword : m.memory.word? m.pc = some word)
    (hi : Instruction.StandsFor word i) (h : (m.step stream).stop = none) :
    ∃ after, i.execute stream (m.fetched word) = .ok () after ∧
      m.step stream = ⟨after.counted, m.said word, none⟩ := by
  cases he : i.execute stream (m.fetched word) with
  | ok _ after => exact ⟨after, rfl, step_of_execute hword hi he⟩
  | error fault left =>
      rw [step_of_fault hword hi he] at h
      cases h

section
variable (hword : m.memory.word? m.pc = some word) (hi : Instruction.StandsFor word i)
  (hstore : i.execute stream (m.fetched word) = store block (m.fetched word))
include hword hi hstore

/-- An accepted write is all that a storing step does to memory. -/
theorem step_store {memory : Memory memorySize}
    (hwrite : Memory.writeBlock m.i block m.memory = .ok () memory) :
    (m.step stream).stop = none ∧ (m.step stream).machine.memory = memory := by
  have hstored : store block (m.fetched word) = .ok () _ :=
    store_eq_ok_iff.mpr ⟨memory, hwrite, rfl⟩
  rw [step_of_execute hword hi (hstore.trans hstored)]
  exact ⟨rfl, rfl⟩

theorem step_store_returns (h : 0 ≤ m.i) (hin : Memory.Holds memorySize m.i block.size) :
    (m.step stream).stop = none :=
  (step_store hword hi hstore ((Memory.writeBlock_eq m.memory block h).trans (if_pos hin))).1

theorem stores_of_step (hreturns : (m.step stream).stop = none) :
    (m.step stream).machine.memory.Stores m.i.toNat block := by
  obtain ⟨after, he, hstep⟩ := exists_execute_of_returns hword hi hreturns
  obtain ⟨memory, hwrite, rfl⟩ := store_eq_ok_iff.mp (hstore.symm.trans he)
  rw [hstep]
  exact Memory.stores_of_writeBlock hwrite

end

def firstRegisters (m : Machine) (x : Fin 16) : Array UInt8 := m.v.toArray.extract 0 (x.val + 1)

theorem getElem_firstRegisters {k : Nat} (hk : k < (m.firstRegisters x).size) (hv : k < 16) :
    (m.firstRegisters x)[k] = m.reg ⟨k, hv⟩ := by
  simp [firstRegisters, reg]

theorem reg_eq_of_firstRegisters (h : after.firstRegisters x = m.firstRegisters x) {r : Fin 16}
    (hr : r ≤ x) : after.reg r = m.reg r := by
  have hsize : r.val < (m.firstRegisters x).size := by
    rw [firstRegisters, size_firstRegisters]
    exact Nat.lt_succ_of_le hr
  have hsize' : r.val < (after.firstRegisters x).size := h ▸ hsize
  rw [← getElem_firstRegisters hsize' r.isLt, ← getElem_firstRegisters hsize r.isLt]
  simp only [h]

structure Filled (x : Fin 16) (block : Array UInt8) (m after : Machine) : Prop where
  filled : after.firstRegisters x = block
  others : ∀ r, x < r → after.reg r = m.reg r
  index : after.i = m.i
  memory : after.memory = m.memory

theorem Filled.rest {between : Machine} (h : Filled x block m between)
    (hrest : Rests between after) : Filled x block m after := by
  unfold Rests at hrest
  rw [hrest]
  exact { h with }

theorem filled_of_loadRegisters (h : loadRegisters x m = .ok () after) :
    ∃ block, m.memory.readBlock m.i (x.val + 1 : Nat) = .ok block ∧ Filled x block m after := by
  obtain ⟨block, hread, hsize, rfl⟩ := loadRegisters_eq_ok_iff.mp h
  refine ⟨block, hread, ?_, ?_, rfl, rfl⟩
  · apply Array.ext
    · rw [firstRegisters, size_firstRegisters, hsize]
    · intro k hk hblock
      have hle : k ≤ x.val := by omega
      simp [firstRegisters, hle, hblock]
  · intro r hr
    have hgt : ¬ r.val ≤ x.val := Nat.not_le.mpr hr
    simp [reg, hgt]

theorem filled_of_step (hword : m.memory.word? m.pc = some (byteWord 0xF x 0x65))
    (hreturns : (m.step stream).stop = none) :
    ∃ block, m.memory.readBlock m.i (x.val + 1 : Nat) = .ok block ∧
      Filled x block m (m.step stream).machine := by
  obtain ⟨after, he, hstep⟩ := exists_execute_of_returns hword (.loadRegisters x) hreturns
  obtain ⟨block, hread, hfilled⟩ := filled_of_loadRegisters he
  rw [hstep]
  exact ⟨block, hread, { hfilled with }⟩

theorem step_loadRegisters_returns (hword : m.memory.word? m.pc = some (byteWord 0xF x 0x65))
    (hread : m.memory.readBlock m.i (x.val + 1 : Nat) = .ok block)
    (hsize : block.size = x.val + 1) : (m.step stream).stop = none := by
  have hload : loadRegisters x (m.fetched (byteWord 0xF x 0x65)) = .ok () _ :=
    loadRegisters_eq_ok_iff.mpr ⟨block, hread, hsize, rfl⟩
  rw [step_of_execute hword (.loadRegisters x) hload]

structure Restored (x : Fin 16) (saved m after : Machine) : Prop where
  restored : ∀ r, r ≤ x → after.reg r = saved.reg r
  others : ∀ r, x < r → after.reg r = m.reg r
  index : after.i = m.i
  memory : after.memory = m.memory

/-- Registers that lie in memory at the index can be got back from there. -/
theorem step_restores {saved : Machine}
    (hword : m.memory.word? m.pc = some (byteWord 0xF x 0x65)) (h : 0 ≤ m.i)
    (hstored : m.memory.Stores m.i.toNat (saved.firstRegisters x)) :
    (m.step stream).stop = none ∧ Restored x saved m (m.step stream).machine := by
  have hsize : (saved.firstRegisters x).size = x.val + 1 := size_firstRegisters saved x
  have hread := hstored.readBlock (hsize ▸ Nat.succ_pos x.val)
  rw [Int.toNat_of_nonneg h, hsize] at hread
  have hreturns : (m.step stream).stop = none := step_loadRegisters_returns hword hread hsize
  obtain ⟨block, hblock, hfilled⟩ := filled_of_step hword hreturns
  obtain rfl := Except.ok.inj (hread.symm.trans hblock)
  exact ⟨hreturns,
    { restored := fun r hr => reg_eq_of_firstRegisters hfilled.filled hr
      others := hfilled.others
      index := hfilled.index
      memory := hfilled.memory }⟩

/-- To save registers that lie in memory at the index already changes no byte. -/
theorem step_saves_again (hword : m.memory.word? m.pc = some (byteWord 0xF x 0x55))
    (h : 0 ≤ m.i) (hstored : m.memory.Stores m.i.toNat (m.firstRegisters x)) :
    (m.step stream).stop = none ∧ (m.step stream).machine.memory = m.memory := by
  have hsize : (m.firstRegisters x).size = x.val + 1 := size_firstRegisters m x
  have hwrite := hstored.writeBlock (hsize ▸ Nat.succ_pos x.val)
  rw [Int.toNat_of_nonneg h] at hwrite
  exact step_store hword (.storeRegisters x) (Instruction.execute_storeRegisters x) hwrite

/-- Registers that were saved can be got back, and digits that were written can be read, as
long as no step in between writes to one of their addresses. To fill registers and to save
them at once changes no byte. -/
theorem Reachable.saved_registers_come_back (h : Reachable m) (stream : RandomBytes)
    (x : Fin 16) :
    (m.memory.word? m.pc = some (byteWord 0xF x 0x55) → m.i + x.val ≤ 4095 →
      (m.step stream).stop = none ∧
        ∀ trail later, Linked (m.step stream).machine trail later →
          (∀ t ∈ trail, ∀ k : Int, m.i ≤ k → k ≤ m.i + x.val → ¬ t.WritesTo k) →
          later.memory.word? later.pc = some (byteWord 0xF x 0x65) → later.i = m.i →
          ∀ stream', (later.step stream').stop = none ∧
            Restored x m later (later.step stream').machine) ∧
      (m.memory.word? m.pc = some (byteWord 0xF x 0x65) → (m.step stream).stop = none →
        ∀ filled, Rests (m.step stream).machine filled →
          filled.memory.word? filled.pc = some (byteWord 0xF x 0x55) →
          ∀ stream', (filled.step stream').stop = none ∧
            (filled.step stream').machine.memory = m.memory) ∧
      (m.memory.word? m.pc = some (byteWord 0xF x 0x33) → (m.step stream).stop = none →
        ∀ trail later, Linked (m.step stream).machine trail later →
          (∀ t ∈ trail, ∀ k : Int, m.i ≤ k → k ≤ m.i + 2 → ¬ t.WritesTo k) →
          later.memory.Spells m.i (m.reg x).toNat) := by
  have hindex : 0 ≤ m.i := h.inRange.index.1
  have hsize : (m.firstRegisters x).size = x.val + 1 := size_firstRegisters m x
  refine ⟨?_, ?_, ?_⟩
  · intro hword hin
    have hholds : Memory.Holds memorySize m.i (m.firstRegisters x).size := by
      simp only [Memory.Holds, memorySize, hsize]
      omega
    have hreturns : (m.step stream).stop = none :=
      step_store_returns hword (.storeRegisters x) (Instruction.execute_storeRegisters x) hindex
        hholds
    refine ⟨hreturns, ?_⟩
    intro trail later hlinked hkept hfill hi stream'
    have hsaved : (m.step stream).machine.memory.Stores m.i.toNat (m.firstRegisters x) :=
      stores_of_step hword (.storeRegisters x) (Instruction.execute_storeRegisters x) hreturns
    have hstored : later.memory.Stores m.i.toNat (m.firstRegisters x) :=
      hlinked.stores hsaved fun t ht k hfirst hlast => hkept t ht k (by omega) (by omega)
    exact step_restores hfill (hi ▸ hindex) (hi ▸ hstored)
  · intro hword hreturns filled hrest hsave stream'
    obtain ⟨block, hread, hstep⟩ := filled_of_step hword hreturns
    have hfilled : Filled x block m filled := hstep.rest hrest
    have hstored := Memory.stores_of_readBlock hindex (Int.natCast_nonneg _) hread
    rw [← hfilled.filled, ← hfilled.index, ← hfilled.memory] at hstored
    obtain ⟨hsaves, hmemory⟩ : (filled.step stream').stop = none ∧
        (filled.step stream').machine.memory = filled.memory :=
      step_saves_again hsave (hfilled.index ▸ hindex) hstored
    exact ⟨hsaves, hmemory.trans hfilled.memory⟩
  · intro hword hreturns trail later hlinked hkept
    have hwritten : (m.step stream).machine.memory.Stores m.i.toNat (decimalDigits (m.reg x)) :=
      stores_of_step hword (.storeDigits x) (Instruction.execute_storeDigits x) hreturns
    have hstored : later.memory.Stores m.i.toNat (decimalDigits (m.reg x)) :=
      hlinked.stores hwritten fun t ht k hfirst hlast => hkept t ht k (by omega) (by
        have hthree : (decimalDigits (m.reg x)).size = 3 := rfl
        omega)
    have hspells := hstored.spells
    rwa [Int.toNat_of_nonneg hindex] at hspells

/-- V0 is saved, overwritten and got back. -/
theorem saved_register_comes_back :
    let started := ((Machine.new ⟨Pacer.defaultClockSpeed, .zero⟩ false).load
      #[0x60, 0x05, 0xF0, 0x55, 0x60, 0x07, 0xF0, 0x65]).machine
    let m := (started.step fun _ => 0).machine
    let saved := (m.step fun _ => 0).machine
    let later := (saved.step fun _ => 0).machine
    Reachable m ∧ m.memory.word? m.pc = some (byteWord 0xF 0 0x55) ∧ m.i = 0 ∧
      later.memory.word? later.pc = some (byteWord 0xF 0 0x65) ∧ later.i = m.i ∧
      later.reg 0 = 7 ∧ (later.step fun _ => 0).machine.reg 0 = 5 := by
  intro started m saved later
  have hstarted : Reachable started := (reachable_default false).load _
  have hpc : started.pc = programAddress := pc_of_load (by decide)
  have hset : started.memory.word? started.pc = some (byteWord 0x6 0 0x05) :=
    word?_at_start (by decide) (by decide) (by decide)
  have hsave : started.memory.word? 0x202 = some (byteWord 0xF 0 0x55) :=
    word?_of_load_eq 2 (by decide) rfl (by decide) (by decide)
  have hreset : started.memory.word? (0x204 : Nat) = some (byteWord 0x6 0 0x07) :=
    word?_of_load_eq 4 (by decide) rfl (by decide) (by decide)
  have hfill : started.memory.word? (0x206 : Nat) = some (byteWord 0xF 0 0x65) :=
    word?_of_load_eq 6 (by decide) rfl (by decide) (by decide)
  have hi : started.i = 0 := congrArg Machine.i (load_touches_only _ _)
  clear_value started
  have hreachable : Reachable m := hstarted.step fun _ => 0
  have hm : m = ((started.fetched (byteWord 0x6 0 0x05)).setReg 0 0x05).counted :=
    congrArg Outcome.machine (step_of_execute hset (.setByte 0 0x05) rfl)
  have hmemory : m.memory = started.memory := by rw [hm]; rfl
  have hmpc : m.pc = 0x202 := by rw [hm]; exact congrArg (· + 2) hpc
  have hmi : m.i = 0 := by rw [hm]; exact hi
  have hmreg : m.reg 0 = 0x05 := by rw [hm]; exact reg_setReg_self _ 0 0x05
  clear_value m
  have hword : m.memory.word? m.pc = some (byteWord 0xF 0 0x55) := by rw [hmemory, hmpc, hsave]
  obtain ⟨hreturns, hback⟩ := (hreachable.saved_registers_come_back (fun _ => 0) 0).1 hword
    (by rw [hmi]; decide)
  rw [show (m.step fun _ => 0).machine = saved from rfl] at hback
  -- Saving V0 at the index 0 leaves the program alone.
  have hkept (k : Nat) (hk : k < memorySize) (hpositive : 0 < k) :
      saved.memory.bytes[k] = m.memory.bytes[k] :=
    TakenStep.getElem_after (t := ⟨fun _ => 0, m⟩) hk
      (TakenStep.not_writesTo hword (.storeRegisters 0) fun hwrites => by
        have hlast : (k : Int) ≤ m.i + 0 := hwrites.2
        omega)
  have hkeptWord (a : Nat) (ha : a + 1 < memorySize) (hpositive : 0 < a) :
      saved.memory.word? a = m.memory.word? a :=
    Memory.word?_congr ha fun k hk hfirst _ => hkept k hk (Nat.lt_of_lt_of_le hpositive hfirst)
  obtain ⟨_, he, hstep⟩ := exists_execute_of_returns hword (.storeRegisters 0) hreturns
  rw [Instruction.execute_storeRegisters] at he
  obtain ⟨memory, -, rfl⟩ := store_eq_ok_iff.mp he
  have hsaved : saved = { m.fetched (byteWord 0xF 0 0x55) with memory }.counted :=
    congrArg Outcome.machine hstep
  have hsavedpc : saved.pc = (0x204 : Nat) := by rw [hsaved]; exact congrArg (· + 2) hmpc
  have hsavedi : saved.i = m.i := by rw [hsaved]; rfl
  clear_value saved
  have hresetWord : saved.memory.word? saved.pc = some (byteWord 0x6 0 0x07) := by
    rw [hsavedpc, hkeptWord _ (by decide) (by decide), hmemory, hreset]
  have hlater : later = ((saved.fetched (byteWord 0x6 0 0x07)).setReg 0 0x07).counted :=
    congrArg Outcome.machine (step_of_execute hresetWord (.setByte 0 0x07) rfl)
  have hlaterpc : later.pc = (0x206 : Nat) := by rw [hlater]; exact congrArg (· + 2) hsavedpc
  have hlateri : later.i = m.i := by rw [hlater]; exact hsavedi
  have hfillWord : later.memory.word? later.pc = some (byteWord 0xF 0 0x65) := by
    rw [hlaterpc, show later.memory = saved.memory by rw [hlater]; rfl,
      hkeptWord _ (by decide) (by decide), hmemory, hfill]
  have hoverwritten : later.reg 0 = 7 := by rw [hlater]; exact reg_setReg_self _ 0 0x07
  have hlinked : Linked saved [⟨fun _ => 0, saved⟩] later := .cons (.refl saved) (.nil (.refl _))
  obtain ⟨-, hrestored⟩ := hback _ later hlinked
    (fun t ht k _ _ => by
      obtain rfl := List.mem_singleton.mp ht
      exact TakenStep.not_writesTo (t := ⟨fun _ => 0, saved⟩) hresetWord (.setByte 0 0x07)
        fun hwrites => hwrites)
    hfillWord hlateri fun _ => 0
  exact ⟨hreachable, hword, hmi, hfillWord, hlateri, hoverwritten,
    (hrestored.restored 0 (Fin.le_refl 0)).trans hmreg⟩

end Machine
end Chip8
