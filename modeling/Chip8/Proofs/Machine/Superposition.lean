import Chip8.Proofs.Machine.Drawing
import Chip8.Proofs.Machine.Trail
import Mathlib.Algebra.BigOperators.Group.List.Lemmas
import Mathlib.Algebra.BigOperators.Ring.List

/-!
# Sprites on top of one another

Drawing inverts pixels, so over a run what counts for a pixel is only whether an odd or an
even number of the sprites drawn has a dot on it. The order of the sprites does not show,
and sprites that are drawn an even number of times leave nothing behind. All this holds as
long as the screen is not cleared; of the other instructions none touches a pixel.

The sprites of a run are told from the machines that drew them: a sprite has the bytes that
lay in memory when it was drawn. A sprite that cannot be read is not drawn.
-/
namespace Chip8

namespace Sprite

/-- Whether an odd number of sprites has a dot at a place. -/
def oddly (sprites : List Sprite) (x y : Nat) : Bool :=
  decide (sprites.countP (fun s => s.dot x y) % 2 = 1)

variable {sprites sprites' : List Sprite} {x y : Nat}

theorem oddly_append :
    oddly (sprites ++ sprites') x y = (oddly sprites x y ^^ oddly sprites' x y) := by
  unfold oddly
  rw [List.countP_append]
  generalize sprites.countP _ = a
  generalize sprites'.countP _ = b
  rcases Nat.mod_two_eq_zero_or_one a with ha | ha <;>
    rcases Nat.mod_two_eq_zero_or_one b with hb | hb <;>
      simp [Nat.add_mod, ha, hb]

theorem oddly_toList (sprite? : Option Sprite) :
    oddly sprite?.toList x y = sprite?.any fun s => s.dot x y := by
  cases sprite? with
  | none => rfl
  | some s => cases h : s.dot x y <;> simp [oddly, h]

theorem oddly_of_perm (h : sprites.Perm sprites') : oddly sprites x y = oddly sprites' x y := by
  unfold oddly
  rw [h.countP_eq]

/-- Sprites come to nothing if each of them is there an even number of times. -/
theorem oddly_of_even (h : ∀ s, sprites.count s % 2 = 0) : oddly sprites x y = false := by
  have heven : 2 ∣ sprites.countP fun s => s.dot x y := by
    rw [← List.sum_map_count_dedup_filter_eq_countP]
    apply List.dvd_sum
    intro count hcount
    obtain ⟨s, -, rfl⟩ := List.mem_map.mp hcount
    exact Nat.dvd_of_mod_eq_zero (h s)
  unfold oddly
  rw [Nat.mod_eq_zero_of_dvd heven]
  rfl

end Sprite

/-- Screens with the same pixels lit have the same pixels. -/
theorem Screen.pixels_ext {width height : Nat} {s s' : Screen width height}
    (h : ∀ (x y : Nat) (hx : x < width) (hy : y < height), s.lit x y hx hy = s'.lit x y hx hy) :
    s.pixels = s'.pixels := by
  ext k hk
  have hpositive : 0 < width := Nat.pos_of_ne_zero fun hzero => by simp [hzero] at hk
  have hcolumn : k % width < width := Nat.mod_lt k hpositive
  have hrow : k / width < height := Nat.div_lt_of_lt_mul hk
  have hindex : k / width * width + k % width = k := Nat.div_add_mod' k width
  have hlit := h (k % width) (k / width) hcolumn hrow
  unfold lit at hlit
  simpa only [hindex] using hlit

def Instruction.sprite? (m : Machine) : Instruction → Option Sprite
  | draw x y n => some (m.spriteAt x y n)
  | _ => none

/-- What an instruction other than clearing does to a pixel. -/
theorem Instruction.lit_of_execute {stream : RandomBytes} {m after : Machine} {i : Instruction}
    (h : 0 ≤ m.i) (hi : i ≠ .clear) (he : i.execute stream m = .ok () after) {px py : Nat}
    (hx : px < 64) (hy : py < 32) :
    after.screen.lit px py hx hy =
      (m.screen.lit px py hx hy ^^ Sprite.oddly (i.sprite? m).toList px py) := by
  cases i with
  | clear => exact (hi rfl).elim
  | draw x y n =>
      rw [Machine.drawSprite_eq_ok h he, Sprite.oddly_toList]
      exact Screen.lit_invertAll_cells m.screen (m.spriteAt x y n) hx hy
  | _ =>
      have hkept := (Instruction.execute_effect (a := m.pc - 2) (by omega) he).screen id
      rw [hkept]
      exact (Bool.xor_false _).symm

namespace TakenStep

def Clears (t : TakenStep) : Prop := t.before.memory.word? t.before.pc = some 0x00E0

/-- The sprite that a step draws, if it returns and draws one. -/
def sprite? (t : TakenStep) : Option Sprite :=
  if t.outcome.stop = none then do
    let word ← t.before.memory.word? t.before.pc
    let i ← Instruction.ofOpcode? word
    i.sprite? t.before
  else none

variable {t : TakenStep} {word : Nat} {i : Instruction}

theorem sprite?_of_stop {stop : Stop} (h : t.outcome.stop = some stop) : t.sprite? = none := by
  unfold sprite?
  rw [if_neg (by simp [h])]

theorem sprite?_of_unknown (hword : t.before.memory.word? t.before.pc = some word)
    (hunknown : ∀ i, ¬Instruction.StandsFor word i) : t.sprite? = none := by
  have hnone := (Instruction.ofOpcode?_eq_none_iff (Memory.word?_lt hword)).mpr hunknown
  unfold sprite?
  simp [hword, hnone]

theorem sprite?_of_standsFor (h : t.outcome.stop = none)
    (hword : t.before.memory.word? t.before.pc = some word)
    (hi : Instruction.StandsFor word i) : t.sprite? = i.sprite? t.before := by
  unfold sprite?
  simp [h, hword, hi.ofOpcode?]

/-- A step that does not clear the screen inverts what it draws and nothing else. -/
theorem lit_after (t : TakenStep) (h : 0 ≤ t.before.i) (hclear : ¬t.Clears) {px py : Nat}
    (hx : px < 64) (hy : py < 32) :
    t.after.screen.lit px py hx hy =
      (t.before.screen.lit px py hx hy ^^ Sprite.oddly t.sprite?.toList px py) := by
  obtain ⟨stream, m⟩ := t
  have hs := Machine.stepped stream m
  have hafter : (TakenStep.mk stream m).after = (m.step stream).machine := rfl
  have houtcome : (TakenStep.mk stream m).outcome = m.step stream := rfl
  generalize m.step stream = o at hs hafter houtcome
  rw [hafter]
  cases hs with
  | strayed =>
      rw [sprite?_of_stop (by rw [houtcome]; rfl)]
      exact (Bool.xor_false _).symm
  | skipped hword hunknown =>
      rw [sprite?_of_unknown hword hunknown]
      exact (Bool.xor_false _).symm
  | failed =>
      rw [sprite?_of_stop (by rw [houtcome])]
      exact (Bool.xor_false _).symm
  | @completed word i between hword hi hdone =>
      have hother : i ≠ .clear := by
        rintro rfl
        cases hi
        exact hclear hword
      have hsprite : i.sprite? (m.fetched word) = i.sprite? m := by
        cases i <;> rfl
      rw [sprite?_of_standsFor (by rw [houtcome]) hword hi]
      dsimp only
      rw [← hsprite]
      exact Instruction.lit_of_execute (m := m.fetched word) h hother hdone hx hy

end TakenStep

namespace Machine
variable {m m' after : Machine} {stream : RandomBytes} {px py : Nat}

def drawings (trail : List TakenStep) : List Sprite := trail.filterMap TakenStep.sprite?

theorem drawings_cons (t : TakenStep) (trail : List TakenStep) :
    drawings (t :: trail) = t.sprite?.toList ++ drawings trail := by
  unfold drawings
  rw [List.filterMap_cons]
  cases t.sprite? <;> rfl

theorem drawings_append (earlier later : List TakenStep) :
    drawings (earlier ++ later) = drawings earlier ++ drawings later :=
  List.filterMap_append

theorem Linked.lit {trail : List TakenStep} (h : Linked m trail after)
    (hindex : ∀ t ∈ trail, 0 ≤ t.before.i) (hclear : ∀ t ∈ trail, ¬t.Clears)
    (hx : px < 64) (hy : py < 32) :
    after.screen.lit px py hx hy =
      (m.screen.lit px py hx hy ^^ Sprite.oddly (drawings trail) px py) := by
  induction h with
  | nil hrest =>
      rw [hrest.screen_eq]
      exact (Bool.xor_false _).symm
  | @cons m after t trail hrest _ ih =>
      obtain ⟨hfirst, hlater⟩ := List.forall_mem_cons.mp hindex
      obtain ⟨hkeeps, hrun⟩ := List.forall_mem_cons.mp hclear
      rw [ih hlater hrun, t.lit_after hfirst hkeeps, hrest.screen_eq, drawings_cons,
        Sprite.oddly_append, Bool.xor_assoc]

theorem InRange.paced {elapsed : Number} {keys : Array Bool} {count : Nat} {ready : Machine}
    (h : m.InRange) (hpaced : pace elapsed keys m = .ok count ready) : ready.InRange := by
  obtain ⟨keypad, _, pacer, -, -, -, rfl⟩ := pace_eq_ok_iff.mp hpaced
  exact { h with }

theorem InRange.of_mem_operation {o : Operation} {t : TakenStep} (h : m.InRange)
    (ht : t ∈ o.trail m) : t.before.InRange := by
  cases o with
  | step stream =>
      obtain rfl := List.mem_singleton.mp ht
      exact h
  | tick stream elapsed keys =>
      obtain ⟨count, ready, hpaced, ht⟩ := paced_of_mem_tickTrail ht
      exact (holds_in_trail (fun _ h => h.step stream) (h.paced hpaced) ht).2
  | _ => cases ht

/-- One operation inverts what its steps draw. Those without steps touch no pixel. -/
theorem InRange.lit_perform (h : m.InRange) (o : Operation)
    (hclear : ∀ t ∈ o.trail m, ¬t.Clears) (hx : px < 64) (hy : py < 32) :
    (o.perform m).machine.screen.lit px py hx hy =
      (m.screen.lit px py hx hy ^^ Sprite.oddly (drawings (o.trail m)) px py) := by
  have hindex : ∀ t ∈ o.trail m, 0 ≤ t.before.i := fun t ht => (h.of_mem_operation ht).index.1
  cases o with
  | step stream =>
      exact (Operation.linked_trail (o := .step stream) trivial m).lit hindex hclear hx hy
  | tick stream elapsed keys =>
      exact (m.linked_tickTrail stream elapsed keys).lit hindex hclear hx hy
  | load program =>
      have hscreen : (m.load program).machine.screen = m.screen := by rw [load_touches_only]
      change (m.load program).machine.screen.lit px py hx hy = _
      rw [hscreen]
      exact (Bool.xor_false _).symm
  | press keys =>
      unfold Operation.perform
      dsimp only
      split <;> exact (Bool.xor_false _).symm
  | countDown | takeChanged => exact (Bool.xor_false _).symm

theorem InRange.lit_performAll {operations : List Operation} (h : m.InRange)
    (hclear : ∀ t ∈ m.trailAll operations, ¬t.Clears) (hx : px < 64) (hy : py < 32) :
    (m.performAll operations).screen.lit px py hx hy =
      (m.screen.lit px py hx hy ^^ Sprite.oddly (drawings (m.trailAll operations)) px py) := by
  induction operations generalizing m with
  | nil => exact (Bool.xor_false _).symm
  | cons o operations ih =>
      change ∀ t ∈ o.trail m ++ (o.perform m).machine.trailAll operations, ¬t.Clears at hclear
      change ((o.perform m).machine.performAll operations).screen.lit px py hx hy =
        (_ ^^ Sprite.oddly (drawings (o.trail m ++ _)) px py)
      obtain ⟨hfirst, hlater⟩ := List.forall_mem_append.mp hclear
      rw [ih (h.perform o) hlater, h.lit_perform o hfirst, drawings_append, Sprite.oddly_append,
        Bool.xor_assoc]

/-- A pixel ends as it began but for the parity of the sprites that have a dot on it. So
the same sprites in another order lead to the same screen, and sprites drawn an even number
of times each leave the screen as it was. -/
theorem Reachable.sprites_combine (h : Reachable m) {operations : List Operation}
    (hclear : ∀ t ∈ m.trailAll operations, ¬t.Clears) :
    (∀ (px py : Nat) (hx : px < 64) (hy : py < 32),
      (m.performAll operations).screen.lit px py hx hy =
        (m.screen.lit px py hx hy ^^
          decide ((drawings (m.trailAll operations)).countP (fun s => s.dot px py) % 2 = 1))) ∧
      (∀ (m' : Machine) (operations' : List Operation), Reachable m' →
        (∀ t ∈ m'.trailAll operations', ¬t.Clears) → m'.screen.pixels = m.screen.pixels →
        (drawings (m'.trailAll operations')).Perm (drawings (m.trailAll operations)) →
          (m'.performAll operations').screen.pixels = (m.performAll operations).screen.pixels) ∧
      ((∀ s, (drawings (m.trailAll operations)).count s % 2 = 0) →
        (m.performAll operations).screen.pixels = m.screen.pixels) := by
  refine ⟨fun px py hx hy => h.inRange.lit_performAll hclear hx hy, ?_, ?_⟩
  · intro m' operations' h' hclear' hpixels hperm
    apply Screen.pixels_ext
    intro px py hx hy
    have hstart : m'.screen.lit px py hx hy = m.screen.lit px py hx hy := by
      unfold Screen.lit
      rw [hpixels]
    rw [h.inRange.lit_performAll hclear, h'.inRange.lit_performAll hclear', hstart,
      Sprite.oddly_of_perm hperm]
  · intro heven
    apply Screen.pixels_ext
    intro px py hx hy
    rw [h.inRange.lit_performAll hclear, Sprite.oddly_of_even heven, Bool.xor_false]

theorem registersWord_ne_clear (x y n : Fin 16) : registersWord 0xD x y n ≠ 0x00E0 := by
  have hselector : (0xD : Fin 16).val = 13 := rfl
  unfold registersWord
  omega

/-- Two sprites drawn one after the other at the same place. -/
theorem drawings_of_two_steps (stream : RandomBytes) {x y n n' : Fin 16} (h : 0 ≤ m.i)
    (hx : x ≠ flagRegister) (hy : y ≠ flagRegister)
    (hread : ∃ rows, m.memory.readBlock m.i n.val = .ok rows)
    (hread' : ∃ rows, m.memory.readBlock m.i n'.val = .ok rows)
    (hword : m.memory.word? m.pc = some (registersWord 0xD x y n))
    (hword' : m.memory.word? (m.pc + 2) = some (registersWord 0xD x y n')) :
    drawings (m.trailAll [.step stream, .step stream]) = [m.spriteAt x y n, m.spriteAt x y n'] ∧
      ∀ t ∈ m.trailAll [.step stream, .step stream], ¬t.Clears := by
  obtain ⟨hreturns, hpc, hdrawn⟩ := step_draw stream h hread hword
  have htrail : m.trailAll [.step stream, .step stream] =
      [⟨stream, m⟩, ⟨stream, (m.step stream).machine⟩] := rfl
  generalize (m.step stream).machine = m₁ at hpc hdrawn htrail
  rw [← hpc, ← hdrawn.memory] at hword'
  rw [← hdrawn.memory, ← hdrawn.index] at hread'
  have hreturns' := (step_draw stream (hdrawn.index ▸ h) hread' hword').1
  have hsame : m₁.spriteAt x y n' = m.spriteAt x y n' := by
    unfold spriteAt
    rw [hdrawn.registers x hx, hdrawn.registers y hy, hdrawn.memory, hdrawn.index]
  have hfirst : (TakenStep.mk stream m).sprite? = some (m.spriteAt x y n) :=
    TakenStep.sprite?_of_standsFor (t := ⟨stream, m⟩) hreturns hword (.draw x y n)
  have hsecond : (TakenStep.mk stream m₁).sprite? = some (m.spriteAt x y n') := by
    rw [← hsame]
    exact TakenStep.sprite?_of_standsFor (t := ⟨stream, m₁⟩) hreturns' hword' (.draw x y n')
  rw [htrail]
  constructor
  · rw [drawings_cons, drawings_cons, hfirst, hsecond]
    rfl
  · simp [TakenStep.Clears, hword, hword', registersWord_ne_clear]

/-- In the corner, with the index at the font, a sprite is made of the first rows of the font. -/
theorem spriteAt_font (hindex : m.i = 0) (hcorner : m.v = Vector.replicate registerCount 0)
    (hfont : m.memory.Stores fontAddress font) (n : Fin 16) :
    m.spriteAt 0 0 n = ⟨0, 0, font.toList.take n.val⟩ := by
  have hreg : m.reg 0 = 0 := by simp [reg, hcorner]
  have hrows : (m.spriteAt 0 0 n).rows = font.toList.take n.val := by
    apply List.ext_getElem
    · simp [spriteAt, font]
      omega
    · intro r hr hr'
      have hrow : r < font.size := by
        simp at hr'
        omega
      have hget : m.memory.get? (m.i + r) = some font[r] := by
        rw [hindex, Memory.get?_eq _ (by omega)]
        simpa using hfont r hrow
      simp [spriteAt, hget]
  have hplace : (m.spriteAt 0 0 n).left = 0 ∧ (m.spriteAt 0 0 n).top = 0 := by
    simp [spriteAt, hreg]
  exact Sprite.ext hplace.1 hplace.2 hrows

/-- A program that starts by drawing two sprites of the font in the corner. -/
theorem drawings_of_program (stream : RandomBytes) (program : Array UInt8) (n n' : Fin 16)
    (hsize : program.size ≤ maxProgramSize) (hlong : 3 < program.size)
    (hfirst : program[0].toNat * 256 + program[1].toNat = registersWord 0xD 0 0 n)
    (hsecond : program[2].toNat * 256 + program[3].toNat = registersWord 0xD 0 0 n')
    (hn : 1 ≤ n.val) (hn' : 1 ≤ n'.val) :
    let m := ((Machine.new ⟨Pacer.defaultClockSpeed, .zero⟩ false).load program).machine
    drawings (m.trailAll [.step stream, .step stream]) =
        [⟨0, 0, font.toList.take n.val⟩, ⟨0, 0, font.toList.take n'.val⟩] ∧
      ∀ t ∈ m.trailAll [.step stream, .step stream], ¬t.Clears := by
  intro m
  obtain ⟨hindex, -, hcorner⟩ :
      m.i = 0 ∧ m.screen = Screen.blank 64 32 ∧ m.v = Vector.replicate registerCount 0 :=
    blank_after_load _ false program
  have hfont : m.memory.Stores fontAddress font := (takes_of_fits hsize).fontBytes
  have hpc : m.pc = programAddress := pc_of_load hsize
  have hword : m.memory.word? m.pc = some (registersWord 0xD 0 0 n) :=
    word?_at_start hsize (by omega) hfirst
  have hword' : m.memory.word? (m.pc + 2) = some (registersWord 0xD 0 0 n') :=
    word?_of_load_eq 2 hsize (by rw [hpc]; rfl) (by omega) hsecond
  rw [← spriteAt_font hindex hcorner hfont n, ← spriteAt_font hindex hcorner hfont n']
  exact drawings_of_two_steps stream (Int.le_of_eq hindex.symm) (by decide) (by decide)
    (exists_readBlock hindex hn) (exists_readBlock hindex hn') hword hword'

/-- A glyph and a bar look the same whichever of them is drawn first. -/
theorem glyph_and_bar_in_either_order :
    let m := ((Machine.new ⟨Pacer.defaultClockSpeed, .zero⟩ false).load
      #[0xD0, 0x05, 0xD0, 0x01]).machine
    let m' := ((Machine.new ⟨Pacer.defaultClockSpeed, .zero⟩ false).load
      #[0xD0, 0x01, 0xD0, 0x05]).machine
    let twoSteps : List Operation := [.step fun _ => 0, .step fun _ => 0]
    Reachable m ∧ (∀ t ∈ m.trailAll twoSteps, ¬t.Clears) ∧
      (m'.performAll twoSteps).screen.pixels = (m.performAll twoSteps).screen.pixels := by
  intro m m' twoSteps
  have hreachable : Reachable m := (reachable_default false).load _
  have hreachable' : Reachable m' := (reachable_default false).load _
  have hblank : m.screen = Screen.blank 64 32 := (blank_after_load _ false _).2.1
  have hblank' : m'.screen = Screen.blank 64 32 := (blank_after_load _ false _).2.1
  obtain ⟨hdrawn, hkeeps⟩ := drawings_of_program (fun _ => 0)
    #[0xD0, 0x05, 0xD0, 0x01] 5 1 (by decide) (by decide) (by decide) (by decide)
    (by decide) (by decide)
  obtain ⟨hdrawn', hkeeps'⟩ := drawings_of_program (fun _ => 0)
    #[0xD0, 0x01, 0xD0, 0x05] 1 5 (by decide) (by decide) (by decide) (by decide)
    (by decide) (by decide)
  have hperm : (drawings (m'.trailAll twoSteps)).Perm (drawings (m.trailAll twoSteps)) := by
    rw [hdrawn, hdrawn']
    exact List.Perm.swap ..
  obtain ⟨-, hsame, -⟩ := hreachable.sprites_combine hkeeps
  have hstart : m'.screen.pixels = m.screen.pixels := by rw [hblank, hblank']
  exact ⟨hreachable, hkeeps, hsame m' twoSteps hreachable' hkeeps' hstart hperm⟩

end Machine
end Chip8
