import Chip8.Proofs.Machine.Halting
import Chip8.Proofs.Program.Load
import Chip8.Proofs.Screen.Sprite

/-!
# What drawing does

A sprite is drawn where two registers say, with as many rows as the instruction names,
read from memory at the index. Its corner wraps onto the screen and the rest of it is cut
off at the right and the lower edge. Each pixel under a dot is inverted and every other
pixel stays as it is.

All three operands are taken from the machine as it was, also where the flag register is
one of them: the flag is written after the registers were read.

A sprite is read before anything of it is drawn, and one that lies partly beyond memory
halts the machine. What is looked at is the address of its last row. A sprite without rows
has none, and the address before the index is looked at in its place.
-/
namespace Chip8.Machine
variable {stream : RandomBytes} {m after : Machine} {x y n : Fin 16}

/-- The sprite of `n` rows that lies at the index, placed where registers `x` and `y` say. -/
def spriteAt (m : Machine) (x y n : Fin 16) : Sprite where
  left := (m.reg x).toNat % screenWidth
  top := (m.reg y).toNat % screenHeight
  rows := (List.range n.val).map fun r : Nat => (m.memory.get? (m.i + r)).getD 0

theorem size_of_rows {rows : Array UInt8} (h : 0 ≤ m.i)
    (hread : m.memory.readBlock m.i n.val = .ok rows) : rows.size = n.val :=
  Int.ofNat_inj.mp (Memory.size_of_readBlock h (Int.natCast_nonneg _) hread)

theorem rows_of_readBlock {rows : Array UInt8} (h : 0 ≤ m.i)
    (hread : m.memory.readBlock m.i n.val = .ok rows) :
    rows.toList = (m.spriteAt x y n).rows := by
  have hsize := size_of_rows h hread
  apply List.ext_getElem
  · simp [spriteAt, hsize]
  · intro r hr _
    have hin : r < rows.size := by simpa using hr
    have hrow := Memory.get?_of_readBlock h (Int.natCast_nonneg _) hread hin
    simp [spriteAt, hrow]

/-- Drawing inverts what the sprite covers, and the flag tells whether any of it was lit. -/
theorem drawSprite_eq_ok (h : 0 ≤ m.i) (hdraw : drawSprite x y n m = .ok () after) :
    after = { m with screen := (m.screen.invertAll (m.spriteAt x y n).cells).2 }.setFlag
      (m.screen.invertAll (m.spriteAt x y n).cells).1 := by
  obtain ⟨rows, hread, hafter⟩ := drawSprite_eq_ok_iff.mp hdraw
  rw [hafter, rows_of_readBlock h hread]
  rfl

/-- Bit `7 - c` of the byte in row `r` of the sprite lies on the pixel. -/
def DotOn (m : Machine) (x y n : Fin 16) (px py : Nat) : Prop :=
  ∃ r c, r < n.val ∧ c < 8 ∧ py = (m.reg y).toNat % 32 + r ∧ px = (m.reg x).toNat % 64 + c ∧
    ∃ row, m.memory.get? (m.i + r) = some row ∧ row.toNat.testBit (7 - c) = true

theorem dotOn_iff {rows : Array UInt8} (h : 0 ≤ m.i)
    (hread : m.memory.readBlock m.i n.val = .ok rows) {px py : Nat} :
    m.DotOn x y n px py ↔ (m.spriteAt x y n).dot px py = true := by
  have hsize := size_of_rows h hread
  have hrow (r : Nat) (hr : r < n.val) : m.memory.get? (m.i + r) = (m.spriteAt x y n).rows[r]? := by
    have hr' : r < rows.size := by omega
    rw [← rows_of_readBlock h hread,
      Memory.get?_of_readBlock h (Int.natCast_nonneg _) hread hr', Array.getElem?_toList,
      Array.getElem?_eq_getElem hr']
  rw [Sprite.dot_eq_true_iff]
  unfold DotOn
  constructor
  · rintro ⟨r, c, hr, hc, hy, hx, row, hget, hbit⟩
    exact ⟨r, c, row, hc, hx, hy, (hrow r hr).symm.trans hget, hbit⟩
  · rintro ⟨r, c, row, hc, hx, hy, hget, hbit⟩
    have hr : r < n.val := by
      have hlength := (List.getElem?_eq_some_iff.mp hget).choose
      simpa [spriteAt] using hlength
    exact ⟨r, c, hr, hc, hy, hx, row, (hrow r hr).trans hget, hbit⟩

def PutOut (m after : Machine) : Prop :=
  ∃ (px py : Nat) (hx : px < 64) (hy : py < 32),
    m.screen.lit px py hx hy = true ∧ after.screen.lit px py hx hy = false

structure Drawn (x y n : Fin 16) (m after : Machine) : Prop where
  /-- Exactly the pixels under a dot are inverted. -/
  inverted : ∀ (px py : Nat) (hx : px < 64) (hy : py < 32),
    after.screen.lit px py hx hy ≠ m.screen.lit px py hx hy ↔ m.DotOn x y n px py
  flagSet : PutOut m after → after.reg flagRegister = 1
  flagCleared : ¬PutOut m after → after.reg flagRegister = 0
  changed : after.screen.changed = true ↔
    m.screen.changed = true ∨
      ∃ (px py : Nat) (hx : px < 64) (hy : py < 32),
        after.screen.lit px py hx hy ≠ m.screen.lit px py hx hy
  registers : ∀ r, r ≠ flagRegister → after.reg r = m.reg r
  index : after.i = m.i
  memory : after.memory = m.memory
  delay : after.delay = m.delay
  sound : after.sound = m.sound
  stack : after.stack = m.stack

theorem drawn_of_drawSprite (h : 0 ≤ m.i) (hdraw : drawSprite x y n m = .ok () after) :
    Drawn x y n m after := by
  obtain ⟨rows, hread, -⟩ := drawSprite_eq_ok_iff.mp hdraw
  have hdot (px py : Nat) : m.DotOn x y n px py ↔ (m.spriteAt x y n).dot px py = true :=
    dotOn_iff h hread
  have hafter := drawSprite_eq_ok h hdraw
  generalize m.spriteAt x y n = sprite at hdot hafter
  have hlit (px py : Nat) (hx : px < 64) (hy : py < 32) :
      after.screen.lit px py hx hy = (m.screen.lit px py hx hy ^^ sprite.dot px py) := by
    rw [hafter]
    exact Screen.lit_invertAll_cells m.screen sprite hx hy
  have hinverted (px py : Nat) (hx : px < 64) (hy : py < 32) :
      after.screen.lit px py hx hy ≠ m.screen.lit px py hx hy ↔ sprite.dot px py = true := by
    rw [hlit]
    cases sprite.dot px py <;> simp
  have hhit : (m.screen.invertAll sprite.cells).1 = true ↔ PutOut m after := by
    rw [Screen.fst_invertAll_cells_iff]
    unfold PutOut
    constructor
    · rintro ⟨px, py, hx, hy, hon, hwas⟩
      exact ⟨px, py, hx, hy, hwas, by rw [hlit, hon, hwas]; rfl⟩
    · rintro ⟨px, py, hx, hy, hwas, hnow⟩
      refine ⟨px, py, hx, hy, (hinverted px py hx hy).mp ?_, hwas⟩
      rw [hwas, hnow]
      exact Bool.false_ne_true
  have hflag : after.reg flagRegister =
      if (m.screen.invertAll sprite.cells).1 then 1 else 0 := by
    rw [hafter]
    exact reg_setFlag _
  constructor
  case inverted =>
    intro px py hx hy
    rw [hinverted, hdot]
  case flagSet =>
    intro hout
    rw [hflag, if_pos (hhit.mpr hout)]
  case flagCleared =>
    intro hout
    rw [hflag, if_neg fun hset => hout (hhit.mp hset)]
  case changed =>
    simp only [hinverted]
    rw [hafter]
    exact Screen.changed_invertAll_cells_iff
  case registers =>
    intro r hr
    rw [hafter]
    exact reg_setFlag_of_ne hr _
  all_goals
    rw [hafter]
    rfl

/-- Neither the fetch nor the count shows in what drawing reads or leaves. -/
theorem step_draw (stream : RandomBytes) (h : 0 ≤ m.i)
    (hread : ∃ rows, m.memory.readBlock m.i n.val = .ok rows)
    (hword : m.memory.word? m.pc = some (registersWord 0xD x y n)) :
    (m.step stream).stop = none ∧ (m.step stream).machine.pc = m.pc + 2 ∧
      Drawn x y n m (m.step stream).machine := by
  obtain ⟨rows, hread⟩ := hread
  have hdraw : drawSprite x y n (m.fetched (registersWord 0xD x y n)) = .ok () _ :=
    drawSprite_eq_ok_iff.mpr ⟨rows, hread, rfl⟩
  have hdrawn := drawn_of_drawSprite (m := m.fetched _) h hdraw
  rw [step_of_execute hword (.draw x y n) hdraw]
  exact ⟨rfl, rfl, { hdrawn with }⟩

/-- A sprite that can be read is drawn, and nothing but the flag and the screen is touched. -/
theorem Reachable.draws_clipped (h : Reachable m) (stream : RandomBytes) (x y n : Fin 16)
    (hread : ∃ rows, m.memory.readBlock m.i n.val = .ok rows) :
    (∃ after, (Instruction.draw x y n).execute stream m = .ok () after ∧ Drawn x y n m after) ∧
      (m.memory.word? m.pc = some (registersWord 0xD x y n) →
        (m.step stream).stop = none ∧ Drawn x y n m (m.step stream).machine) := by
  have hindex : 0 ≤ m.i := h.inRange.index.1
  constructor
  · obtain ⟨rows, hrows⟩ := hread
    have hdraw : drawSprite x y n m = .ok () _ := drawSprite_eq_ok_iff.mpr ⟨rows, hrows, rfl⟩
    exact ⟨_, hdraw, drawn_of_drawSprite hindex hdraw⟩
  · intro hword
    obtain ⟨hreturns, -, hdrawn⟩ := step_draw stream hindex hread hword
    exact ⟨hreturns, hdrawn⟩

/-- A new machine with a program in memory points at the first glyph and shows nothing. -/
theorem blank_after_load (pacer : Pacer) (traced : Bool) (program : Array UInt8) :
    let m := ((Machine.new pacer traced).load program).machine
    m.i = 0 ∧ m.screen = Screen.blank 64 32 ∧ m.v = Vector.replicate registerCount 0 := by
  intro m
  have htouched : m = _ := load_touches_only _ program
  rw [htouched]
  exact ⟨rfl, rfl, rfl⟩

/-- The glyphs can be read. -/
theorem exists_readBlock (h : m.i = 0) {n : Fin 16} (hn : 1 ≤ n.val) :
    ∃ rows, m.memory.readBlock m.i n.val = .ok rows := by
  have hholds : Memory.Holds memorySize 0 n.val := by
    have hshort := n.isLt
    simp only [Memory.Holds, memorySize]
    omega
  rw [h, Memory.readBlock_eq _ (Int.le_refl 0) (Int.natCast_nonneg _), if_pos hholds]
  exact ⟨_, rfl⟩

/-- The glyph of 0 in the lower right corner keeps two of its columns and two of its rows. -/
theorem glyph_is_cut_off_at_corner :
    let started := ((Machine.new ⟨Pacer.defaultClockSpeed, .zero⟩ false).load
      #[0x60, 0x3E, 0xD0, 0x05]).machine
    let m := (started.step fun _ => 0).machine
    let after := (m.step fun _ => 0).machine
    Reachable m ∧ (∃ rows, m.memory.readBlock m.i 5 = .ok rows) ∧
      m.memory.word? m.pc = some (registersWord 0xD 0 0 5) ∧ Drawn 0 0 5 m after ∧
      after.screen.lit 63 30 (by decide) (by decide) = true ∧
      after.screen.lit 0 30 (by decide) (by decide) = false := by
  intro started m after
  have hstarted : Reachable started := (reachable_default false).load _
  have hset : started.memory.word? started.pc = some (byteWord 0x6 0 0x3E) :=
    word?_at_start (by decide) (by decide) (by decide)
  have hpc : started.pc = programAddress := pc_of_load (by decide)
  have hdraw : started.memory.word? 0x202 = some (registersWord 0xD 0 0 5) :=
    word?_of_load_eq 2 (by decide) rfl (by decide) (by decide)
  have hglyph : started.memory.get? 0 = some 0xF0 :=
    (takes_of_fits (by decide)).fontBytes 0 (by decide)
  obtain ⟨hindex, hblank, -⟩ : started.i = 0 ∧ started.screen = Screen.blank 64 32 ∧ _ :=
    blank_after_load _ false _
  clear_value started
  have hreachable : Reachable m := hstarted.step fun _ => 0
  have hm : m = ((started.fetched (byteWord 0x6 0 0x3E)).setReg 0 0x3E).counted :=
    congrArg Outcome.machine (step_of_execute hset (.setByte 0 0x3E) rfl)
  have hmemory : m.memory = started.memory := by rw [hm]; rfl
  have hnext : m.pc = 0x202 := by rw [hm]; exact congrArg (· + 2) hpc
  have hi : m.i = 0 := by rw [hm]; exact hindex
  have hdark : m.screen = Screen.blank 64 32 := by rw [hm]; exact hblank
  have hcorner : m.reg 0 = 0x3E := by rw [hm]; exact Vector.getElem_set_self _
  clear_value m
  have hread : ∃ rows, m.memory.readBlock m.i 5 = .ok rows :=
    exists_readBlock hi (n := 5) (by decide)
  have hword : m.memory.word? m.pc = some (registersWord 0xD 0 0 5) := by
    rw [hmemory, hnext, hdraw]
  have hdrawn : Drawn 0 0 5 m after :=
    ((hreachable.draws_clipped (fun _ => 0) 0 0 5 hread).2 hword).2
  clear_value after
  have hwas (px py : Nat) (hx : px < 64) (hy : py < 32) :
      m.screen.lit px py hx hy = false := by
    simp [hdark, Screen.lit, Screen.blank]
  have hon : m.DotOn 0 0 5 63 30 := by
    have hrow : m.memory.get? (m.i + (0 : Nat)) = some 0xF0 := by
      rw [hmemory, hi]
      exact hglyph
    exact ⟨0, 1, by decide, by decide, by simp [hcorner], by simp [hcorner], 0xF0, hrow, by decide⟩
  have hoff : ¬m.DotOn 0 0 5 0 30 := by
    rintro ⟨r, c, -, -, -, hcolumn, -⟩
    rw [hcorner] at hcolumn
    have hwrapped : (0x3E : UInt8).toNat % 64 = 62 := rfl
    omega
  refine ⟨hreachable, hread, hword, hdrawn, ?_, ?_⟩
  · simpa [hwas] using (hdrawn.inverted 63 30 (by decide) (by decide)).mpr hon
  · have hkept := mt (hdrawn.inverted 0 30 (by decide) (by decide)).mp hoff
    simpa [hwas] using hkept

/-! ## Sprites that cannot be read -/

/-- A row of the sprite lies beyond memory, or it has no rows and the address before the
index is not one of memory. -/
def SpriteOutside (m : Machine) (n : Fin 16) : Prop :=
  (∃ k : Nat, k < n.val ∧ memorySize ≤ m.i + k) ∨ n.val = 0 ∧ (m.i = 0 ∨ memorySize < m.i)

theorem InRange.blockFault?_eq_none_iff (h : m.InRange) (n : Fin 16) :
    m.blockFault? n.val = none ↔ ¬m.SpriteOutside n := by
  have hindex := h.index.1
  have hheld : m.blockFault? n.val = none ↔ Memory.Holds memorySize m.i n.val := by
    unfold blockFault?
    split <;> simp [*]
  rw [hheld]
  unfold Memory.Holds SpriteOutside
  constructor
  · rintro ⟨hlow, hhigh⟩ (⟨k, hk, hout⟩ | ⟨hrowless, hout⟩)
    · omega
    · omega
  · intro hinside
    by_cases hrowless : n.val = 0
    · omega
    · -- The last row is inside, and so are those before it.
      have hlast : ¬(memorySize : Int) ≤ m.i + (n.val - 1 : Nat) := fun hout =>
        hinside (.inl ⟨n.val - 1, Nat.sub_one_lt hrowless, hout⟩)
      omega

theorem InRange.readBlock_of_inside (h : m.InRange) (hinside : ¬m.SpriteOutside n) :
    ∃ rows, m.memory.readBlock m.i n.val = .ok rows := by
  rcases h.readBlock_or_fault n.val with ⟨rows, hread, -⟩ | ⟨e, -, hsome⟩
  · exact ⟨rows, hread⟩
  · cases ((h.blockFault?_eq_none_iff n).mpr hinside).symm.trans hsome

/-- The sprite is drawn, or the machine halts before anything is drawn. -/
theorem InRange.draws_or_halts (h : m.InRange) (stream : RandomBytes)
    (hword : m.memory.word? m.pc = some (registersWord 0xD x y n)) :
    (¬m.SpriteOutside n ∧ (m.step stream).stop = none) ∨
      (m.SpriteOutside n ∧
        ∃ report, (m.step stream).stop = some (.halted .outOfBounds report)) := by
  by_cases houtside : m.SpriteOutside n
  · obtain ⟨fault, hfault⟩ : ∃ fault, m.blockFault? n.val = some fault :=
      Option.ne_none_iff_exists'.mp fun hnone =>
        (h.blockFault?_eq_none_iff n).mp hnone houtside
    have hdraw : drawSprite x y n (m.fetched (registersWord 0xD x y n)) = .error fault _ :=
      (h.fetched hword).drawSprite_eq_error_iff.mpr hfault
    obtain ⟨report, hreport⟩ := haltOn_eq_halted_iff.mpr (haltKind?_of_blockFault? hfault)
    refine .inr ⟨houtside, report, ?_⟩
    rw [step_of_fault hword (.draw x y n) hdraw]
    exact congrArg some hreport
  · have hread := h.readBlock_of_inside houtside
    exact .inl ⟨houtside, (step_draw stream h.index.1 hread hword).1⟩

theorem drawSprite_rowless (hread : ∃ rows, m.memory.readBlock m.i 0 = .ok rows) (h : 0 ≤ m.i) :
    drawSprite x y 0 m = .ok () (m.setFlag false) := by
  obtain ⟨rows, hread⟩ := hread
  have hdraw : drawSprite x y 0 m = .ok () _ := drawSprite_eq_ok_iff.mpr ⟨rows, hread, rfl⟩
  rw [hdraw, drawSprite_eq_ok h hdraw]
  rfl

/-- A sprite halts the machine where it lies outside memory, and there only. A sprite
without rows that does not halt it clears the flag and is not seen. -/
theorem Reachable.sprite_halts_iff (h : Reachable m) (stream : RandomBytes) (x y n : Fin 16)
    (hword : m.memory.word? m.pc = some (registersWord 0xD x y n)) :
    ((∃ report, (m.step stream).stop = some (.halted .outOfBounds report)) ↔
        m.SpriteOutside n) ∧
      ((m.step stream).stop = none ↔ ¬m.SpriteOutside n) ∧
      (n = 0 → (m.step stream).stop = none →
        (m.step stream).machine =
          ((m.fetched (registersWord 0xD x y n)).setFlag false).counted) := by
  rcases h.inRange.draws_or_halts stream hword with ⟨hinside, hreturns⟩ | ⟨houtside, hhalts⟩
  · have hnever : ¬∃ report, (m.step stream).stop = some (.halted .outOfBounds report) := by
      rw [hreturns]
      exact nofun
    refine ⟨iff_of_false hnever hinside, iff_of_true hreturns hinside, ?_⟩
    rintro rfl -
    have hread := h.inRange.readBlock_of_inside hinside
    have hdraw : drawSprite x y 0 (m.fetched (registersWord 0xD x y 0)) = .ok () _ :=
      drawSprite_rowless hread h.inRange.index.1
    exact congrArg Outcome.machine (step_of_execute hword (.draw x y 0) hdraw)
  · have hstops : (m.step stream).stop ≠ none := by
      obtain ⟨report, hstop⟩ := hhalts
      rw [hstop]
      exact nofun
    exact ⟨iff_of_true hhalts houtside, iff_of_false hstops (not_not_intro houtside),
      fun _ hnone => (hstops hnone).elim⟩

/-- Two rows do not fit at the last address. -/
theorem sprite_halts_at_end_of_memory :
    let started := ((Machine.new ⟨Pacer.defaultClockSpeed, .zero⟩ false).load
      #[0xAF, 0xFF, 0xD0, 0x12]).machine
    let m := (started.step fun _ => 0).machine
    Reachable m ∧ m.memory.word? m.pc = some (registersWord 0xD 0 1 2) ∧ m.i = 0xFFF ∧
      ∃ report, (m.step fun _ => 0).stop = some (.halted .outOfBounds report) := by
  intro started m
  have hstarted : Reachable started := (reachable_default false).load _
  have hset : started.memory.word? started.pc = some (addressWord 0xA 0xFFF) :=
    word?_at_start (by decide) (by decide) (by decide)
  have hpc : started.pc = programAddress := pc_of_load (by decide)
  have hdraw : started.memory.word? (started.pc + 2) = some (registersWord 0xD 0 1 2) :=
    word?_of_load_eq 2 (by decide) (by rw [hpc]; rfl) (by decide) (by decide)
  clear_value started
  have hreachable : Reachable m := hstarted.step fun _ => 0
  have hm : m = { started.fetched (addressWord 0xA 0xFFF) with i := 0xFFF }.counted :=
    congrArg Outcome.machine (step_of_execute hset (.setIndex 0xFFF) rfl)
  have hword : m.memory.word? m.pc = some (registersWord 0xD 0 1 2) := by rw [hm]; exact hdraw
  have hi : m.i = 0xFFF := by rw [hm]; rfl
  clear_value m
  have houtside : m.SpriteOutside 2 := by
    refine .inl ⟨1, by decide, ?_⟩
    rw [hi]
    decide
  exact ⟨hreachable, hword, hi,
    (hreachable.sprite_halts_iff (fun _ => 0) 0 1 2 hword).1.mpr houtside⟩

/-- No row lies beyond memory, for there is none, and the machine halts. -/
theorem rowless_sprite_halts_at_zero :
    let m := ((Machine.new ⟨Pacer.defaultClockSpeed, .zero⟩ false).load #[0xD0, 0x00]).machine
    Reachable m ∧ m.memory.word? m.pc = some (registersWord 0xD 0 0 0) ∧ m.i = 0 ∧
      (¬∃ k : Nat, k < (0 : Fin 16).val ∧ memorySize ≤ m.i + k) ∧
      ∃ report, (m.step fun _ => 0).stop = some (.halted .outOfBounds report) := by
  intro m
  have hreachable : Reachable m := (reachable_default false).load _
  have hword : m.memory.word? m.pc = some (registersWord 0xD 0 0 0) :=
    word?_at_start (by decide) (by decide) (by decide)
  obtain ⟨hi, -⟩ : m.i = 0 ∧ _ := blank_after_load _ false _
  clear_value m
  refine ⟨hreachable, hword, hi, fun ⟨k, hk, _⟩ => absurd hk (Nat.not_lt_zero k), ?_⟩
  rcases hreachable.inRange.draws_or_halts (fun _ => 0) hword with ⟨hinside, -⟩ | ⟨-, hhalts⟩
  · exact (hinside (.inr ⟨rfl, .inl hi⟩)).elim
  · exact hhalts

end Chip8.Machine
