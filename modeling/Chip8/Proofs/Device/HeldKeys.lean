import Chip8.Device.Controls
import Chip8.Proofs.KeyLayout
import Chip8.Proofs.Machine.Grouping
import Chip8.Proofs.Program.Load

/-!
# From the keyboard to the keypad

In the window a layout gives each of the sixteen keys one code of the host. A key is down
in a snapshot exactly if its code is held, and during a tick the two skips on a key look at
nothing but that snapshot. A register that holds no number of a key counts as a key that
is up.
-/
namespace Chip8

namespace KeyLayout
variable {text : String} {l : KeyLayout} {k : Nat} {code : Int}

/-- The code that a text writes for a key, key 0 first. -/
def Writes (text : String) (k : Nat) (code : Int) : Prop :=
  ∃ part, (parts text)[k]? = some part ∧ Text.readInt? part = some code

/-- The code written for a key is pressed. -/
def Presses (text : String) (pressed : Int → Bool) (k : Nat) : Prop :=
  ∃ code, Writes text k code ∧ pressed code = true

theorem readCode_eq_ok_iff {part : List Char} :
    readCode false part = .ok code ↔ Text.readInt? part = some code := by
  unfold readCode
  cases Text.readInt? part with
  | none => simp [throw, throwThe, MonadExceptOf.throw]
  | some written => simp [pure, Except.pure]

/-- The codes of an accepted layout are those that are written, one for each key. -/
theorem writes_iff (h : parse false text = .ok l) :
    Writes text k code ↔ l.codes[k]? = some code := by
  obtain ⟨-, hread, -⟩ := parse_eq_ok_iff.mp h
  obtain ⟨hlength, hcode⟩ := List.forall₂_iff_get.mp hread
  constructor
  · rintro ⟨part, hpart, hwritten⟩
    obtain ⟨hk, rfl⟩ := List.getElem?_eq_some_iff.mp hpart
    have hk' : k < l.codes.length := by omega
    have hread := readCode_eq_ok_iff.mp (hcode k hk hk')
    simp only [List.get_eq_getElem] at hread
    rw [List.getElem?_eq_getElem hk', ← hread, hwritten]
  · intro hkey
    obtain ⟨hk, rfl⟩ := List.getElem?_eq_some_iff.mp hkey
    have hk' : k < (parts text).length := by omega
    exact ⟨_, List.getElem?_eq_getElem hk', readCode_eq_ok_iff.mp (hcode k hk' hk)⟩

theorem length_codes (h : parse false text = .ok l) : l.codes.length = keyCount := by
  obtain ⟨hcount, hread, -⟩ := parse_eq_ok_iff.mp h
  rw [← hread.length_eq, hcount]

/-- No key has two codes. -/
theorem Writes.unique {code' : Int} (h : Writes text k code) (h' : Writes text k code') :
    code = code' := by
  obtain ⟨part, hpart, hcode⟩ := h
  obtain ⟨part', hpart', hcode'⟩ := h'
  obtain rfl := Option.some.inj (hpart.symm.trans hpart')
  exact Option.some.inj (hcode.symm.trans hcode')

theorem size_states (l : KeyLayout) (held : List Int) :
    (l.states held).size = l.codes.length := by
  simp [states]

theorem getElem?_states (l : KeyLayout) (held : List Int) (k : Nat) :
    (l.states held)[k]? = l.codes[k]?.map held.contains := by
  simp [states]

section
variable {held : List Int} {pressed : Int → Bool}
  (hheld : ∀ k code, Writes text k code → (code ∈ held ↔ pressed code = true))
include hheld

theorem getElem?_states_of_writes (h : parse false text = .ok l) (hcode : Writes text k code) :
    (l.states held)[k]? = some (pressed code) := by
  rw [getElem?_states, (writes_iff h).mp hcode, Option.map_some, Option.some.injEq,
    Bool.eq_iff_iff, List.contains_iff_mem]
  exact hheld k code hcode

theorem states_iff_presses (h : parse false text = .ok l) (k : Nat) :
    (l.states held)[k]?.getD false = true ↔ Presses text pressed k := by
  cases hkey : l.codes[k]? with
  | none =>
      rw [getElem?_states, hkey]
      refine iff_of_false Bool.false_ne_true ?_
      rintro ⟨code, hcode, -⟩
      cases hkey.symm.trans ((writes_iff h).mp hcode)
  | some code =>
      have hcode : Writes text k code := (writes_iff h).mpr hkey
      rw [getElem?_states_of_writes hheld h hcode, Option.getD_some]
      constructor
      · intro hpressed
        exact ⟨code, hcode, hpressed⟩
      · rintro ⟨code', hcode', hpressed⟩
        rwa [hcode.unique hcode']

end

end KeyLayout

namespace Keypad

theorem isDown_of_snapshot {keys : Array Bool} {keypad : Keypad}
    (h : ofSnapshot? keys = some keypad) (k : Nat) : keypad.isDown k = keys[k]?.getD false := by
  unfold ofSnapshot? at h
  split at h
  · cases h
    simp [isDown]
  · cases h

end Keypad

namespace Machine
variable {m : Machine} {x : Fin 16} {stream : RandomBytes}

theorem step_skip {word : Nat} {i : Instruction} {condition : Bool}
    (hword : m.memory.word? m.pc = some word) (hi : Instruction.StandsFor word i)
    (he : i.execute stream (m.fetched word) = .ok () ((m.fetched word).skipIf condition)) :
    (m.step stream).stop = none ∧
      (m.step stream).machine.pc = m.pc + if condition then 4 else 2 := by
  rw [step_of_execute hword hi he, skipIf_eq]
  refine ⟨rfl, ?_⟩
  cases condition with
  | false => rfl
  | true => exact Int.add_assoc m.pc 2 2

theorem step_skipIfKey (stream : RandomBytes)
    (hword : m.memory.word? m.pc = some (byteWord 0xE x 0x9E)) :
    (m.step stream).stop = none ∧
      (m.step stream).machine.pc =
        m.pc + if m.keypad.isDown (m.reg x).toNat then 4 else 2 :=
  step_skip hword (.skipIfKey x) rfl

theorem step_skipUnlessKey (stream : RandomBytes)
    (hword : m.memory.word? m.pc = some (byteWord 0xE x 0xA1)) :
    (m.step stream).stop = none ∧
      (m.step stream).machine.pc =
        m.pc + if !m.keypad.isDown (m.reg x).toNat then 4 else 2 :=
  step_skip hword (.skipUnlessKey x) rfl

end Machine

namespace TakenStep

/-- The step is asked whether the key in a register is down. -/
def AsksDown (t : TakenStep) (x : Fin 16) : Prop :=
  t.before.memory.word? t.before.pc = some (byteWord ⟨0xE, by decide⟩ x 0x9E)

/-- The step is asked whether the key in a register is up. -/
def AsksUp (t : TakenStep) (x : Fin 16) : Prop :=
  t.before.memory.word? t.before.pc = some (byteWord ⟨0xE, by decide⟩ x 0xA1)

def Skips (t : TakenStep) : Prop := t.outcome.stop = none ∧ t.after.pc = t.before.pc + 4

def GoesOn (t : TakenStep) : Prop := t.outcome.stop = none ∧ t.after.pc = t.before.pc + 2

variable {x : Fin 16}

theorem skips_of_down (t : TakenStep)
    (h : t.before.keypad.isDown (t.before.reg x).toNat = true) :
    (t.AsksDown x → t.Skips) ∧ (t.AsksUp x → t.GoesOn) := by
  constructor
  · intro hasks
    have hstep := Machine.step_skipIfKey t.stream hasks
    rwa [h] at hstep
  · intro hasks
    have hstep := Machine.step_skipUnlessKey t.stream hasks
    rwa [h] at hstep

theorem skips_of_up (t : TakenStep)
    (h : t.before.keypad.isDown (t.before.reg x).toNat = false) :
    (t.AsksDown x → t.GoesOn) ∧ (t.AsksUp x → t.Skips) := by
  constructor
  · intro hasks
    have hstep := Machine.step_skipIfKey t.stream hasks
    rwa [h] at hstep
  · intro hasks
    have hstep := Machine.step_skipUnlessKey t.stream hasks
    rwa [h] at hstep

end TakenStep

namespace Controls
variable {text : String} {controls : Controls} {host : Host}

theorem states_window (l : KeyLayout) (host : Host) :
    (window l).states host = l.states host.turn.held := rfl

theorem acquire_window_eq_ok (h : acquire .window false text = .ok controls) :
    ∃ l, KeyLayout.parse false text = .ok l ∧ controls = .window l := by
  unfold acquire at h
  cases hparse : KeyLayout.parse false text with
  | error e => simp [hparse, Except.map] at h
  | ok l =>
      simp [hparse, Except.map] at h
      exact ⟨l, rfl, h.symm⟩

/-- From the text of a layout to the skips of a program: the keys of the window are down
exactly where the codes written for them are held. -/
theorem held_codes_reach_keys (hacquired : acquire .window false text = .ok controls)
    (pressed : Int → Bool)
    (hheld : ∀ k code, KeyLayout.Writes text k code →
      (code ∈ host.turn.held ↔ pressed code = true)) :
    (controls.states host).size = 16 ∧
      (∀ k, k < 16 → ∃ code, KeyLayout.Writes text k code ∧
        ((controls.states host)[k]? = some true ↔ pressed code = true)) ∧
      ∀ (m : Machine) (stream : RandomBytes) (elapsed : Number),
        ∀ t ∈ m.tickTrail stream elapsed (controls.states host), ∀ x : Fin 16,
          (KeyLayout.Presses text pressed (t.before.reg x).toNat →
            (t.AsksDown x → t.Skips) ∧ (t.AsksUp x → t.GoesOn)) ∧
          (¬KeyLayout.Presses text pressed (t.before.reg x).toNat →
            (t.AsksDown x → t.GoesOn) ∧ (t.AsksUp x → t.Skips)) := by
  obtain ⟨l, hparse, rfl⟩ := acquire_window_eq_ok hacquired
  rw [states_window]
  have hlength : l.codes.length = 16 := KeyLayout.length_codes hparse
  refine ⟨by rw [KeyLayout.size_states, hlength], ?_, ?_⟩
  · intro k hk
    have hwritten : KeyLayout.Writes text k l.codes[k] :=
      (KeyLayout.writes_iff hparse).mpr (List.getElem?_eq_getElem _)
    refine ⟨l.codes[k], hwritten, ?_⟩
    rw [KeyLayout.getElem?_states_of_writes hheld hparse hwritten, Option.some.injEq]
  · intro m stream elapsed t ht x
    obtain ⟨-, hsnapshot⟩ := Machine.under_tickTrail ht
    have hdown : t.before.keypad.isDown (t.before.reg x).toNat = true ↔
        KeyLayout.Presses text pressed (t.before.reg x).toNat := by
      rw [Keypad.isDown_of_snapshot hsnapshot]
      exact KeyLayout.states_iff_presses hheld hparse _
    constructor
    · intro hpressed
      rw [← hdown] at hpressed
      exact t.skips_of_down hpressed
    · intro hpressed
      rw [← hdown, Bool.not_eq_true] at hpressed
      exact t.skips_of_up hpressed

/-- With the code of key 0 held, a program that asks for key 0 passes over an instruction. -/
theorem held_code_is_passed_on :
    let controls := Controls.window
      ⟨[120, 49, 50, 51, 113, 119, 101, 97, 115, 100, 122, 99, 52, 114, 102, 118]⟩
    let host := { Host.quiet with turn := { Turn.idle with held := [120] } }
    let m := ((Machine.new ⟨.int 1, .zero⟩ false).load #[0xE0, 0x9E]).machine
    let trail := m.tickTrail (fun _ => 0) (.int 1) (controls.states host)
    acquire .window false KeyLayout.standard = .ok controls ∧
      (controls.states host)[0]? = some true ∧ trail.length = 1 ∧ ∀ t ∈ trail, t.Skips := by
  intro controls host m trail
  have hacquired : acquire .window false KeyLayout.standard = .ok controls := by decide +kernel
  have hheld (k : Nat) (code : Int) (_ : KeyLayout.Writes KeyLayout.standard k code) :
      code ∈ host.turn.held ↔ (code == 120) = true := by
    simp [host]
  have hzero : KeyLayout.Writes KeyLayout.standard 0 120 :=
    ⟨"120".toList, by decide +kernel, by decide +kernel⟩
  have hword : m.memory.word? m.pc = some (byteWord 0xE 0 0x9E) :=
    Machine.word?_at_start (by decide) (by decide) (by decide)
  have htouched : m = { Machine.new ⟨.int 1, .zero⟩ false with
      memory := m.memory, pc := m.pc } := Machine.load_touches_only _ _
  have hpacer : m.pacer = ⟨.int 1, .zero⟩ := by rw [htouched]; rfl
  have hregister : m.reg 0 = 0 := by rw [htouched]; rfl
  clear_value m
  obtain ⟨hsize, hentries, hskips⟩ := held_codes_reach_keys hacquired (· == 120) hheld
  obtain ⟨code, hcode, hentry⟩ := hentries 0 (by decide)
  obtain rfl := hzero.unique hcode
  obtain ⟨keypad, hkeypad⟩ : ∃ keypad, Keypad.ofSnapshot? (controls.states host) = some keypad :=
    ⟨_, dif_pos hsize⟩
  have hdue : Pacer.instructionsFor (.int 1) ⟨.int 1, .zero⟩ = .ok 1 ⟨.int 1, .zero⟩ := by
    decide +kernel
  have hpaced : Machine.pace (.int 1) (controls.states host) m =
      .ok 1 { m with keypad, pacer := ⟨.int 1, .zero⟩ } :=
    Machine.pace_eq_ok_iff.mpr ⟨keypad, 1, _, hkeypad, hpacer ▸ hdue, rfl, rfl⟩
  have htrail : trail = [⟨fun _ => 0, { m with keypad, pacer := ⟨.int 1, .zero⟩ }⟩] := by
    show Machine.tickTrail _ _ _ _ = _
    unfold Machine.tickTrail
    rw [hpaced]
    exact Machine.trail_one _ _
  refine ⟨hacquired, hentry.mpr rfl, by rw [htrail]; rfl, ?_⟩
  intro t ht
  have hskip := hskips m (fun _ => 0) (.int 1) t ht 0
  rw [htrail, List.mem_singleton] at ht
  subst ht
  have hpressed : KeyLayout.Presses KeyLayout.standard (· == 120) (m.reg 0).toNat := by
    rw [hregister]
    exact ⟨120, hzero, rfl⟩
  exact (hskip.1 hpressed).1 hword

end Controls
end Chip8
