import Chip8.Machine.Execute
import Mathlib.Data.List.Nodup

/-!
# What a sprite inverts

Inverting pixels one after another turns a pixel over as often as it is named, and marks
the screen changed if any of them lies on it. A sprite names no pixel twice, so what it
inverts stays inverted: the screen is marked changed exactly if its pixels differ, and
the answer tells whether one of its pixels was lit.

Which pixels those are can be told from the bits of its rows. A dot that hangs over the
right or the lower edge lies on no pixel.
-/
namespace Chip8

namespace Screen
variable {width height : Nat} {s : Screen width height} {cells : List (Int × Int)}

/-- The cell is a pixel of the screen. -/
abbrev OnScreen (width height : Nat) (cell : Int × Int) : Prop :=
  0 ≤ cell.1 ∧ 0 ≤ cell.2 ∧ cell.1.toNat < width ∧ cell.2.toNat < height

theorem onScreen_natCast {x y : Nat} (hx : x < width) (hy : y < height) :
    OnScreen width height (x, y) :=
  ⟨Int.natCast_nonneg x, Int.natCast_nonneg y, hx, hy⟩

theorem index_inj {x y x' y' : Nat} (hx : x < width) (hx' : x' < width) :
    y * width + x = y' * width + x' ↔ x = x' ∧ y = y' := by
  constructor
  · intro h
    have hcolumn : x = x' := by
      have hmod := congrArg (· % width) h
      simpa [Nat.mod_eq_of_lt hx, Nat.mod_eq_of_lt hx'] using hmod
    have hrow : y * width = y' * width := by omega
    exact ⟨hcolumn, Nat.eq_of_mul_eq_mul_right (Nat.zero_lt_of_lt hx) hrow⟩
  · rintro ⟨rfl, rfl⟩
    rfl

theorem invert_of_off {cell : Int × Int} (h : ¬OnScreen width height cell) :
    s.invert cell.1 cell.2 = (none, s) :=
  dif_neg h

theorem changed_invert {cell : Int × Int} (h : OnScreen width height cell) :
    (s.invert cell.1 cell.2).2.changed = true := by
  unfold invert
  rw [dif_pos h]

theorem lit_invert (cell : Int × Int) {x y : Nat} (hx : x < width) (hy : y < height) :
    (s.invert cell.1 cell.2).2.lit x y hx hy =
      (s.lit x y hx hy ^^ decide (cell = ((x : Int), (y : Int)))) := by
  by_cases hon : OnScreen width height cell
  · have hsame : cell.2.toNat * width + cell.1.toNat = y * width + x ↔
        cell = ((x : Int), (y : Int)) := by
      rw [index_inj hon.2.2.1 hx, Prod.ext_iff]
      have hleft := hon.1
      have htop := hon.2.1
      dsimp only
      omega
    unfold invert
    rw [dif_pos hon]
    unfold lit
    simp only [Vector.getElem_set, hsame]
    by_cases heq : cell = ((x : Int), (y : Int))
    · obtain rfl := heq
      simp
    · simp [heq]
  · have hne : cell ≠ ((x : Int), (y : Int)) := by
      rintro rfl
      exact hon (onScreen_natCast hx hy)
    rw [invert_of_off hon]
    simp [hne]

theorem snd_invertAll (s : Screen width height) (cells : List (Int × Int)) :
    (s.invertAll cells).2 = cells.foldl (fun s cell => (s.invert cell.1 cell.2).2) s :=
  (List.foldl_hom Prod.snd fun _ _ => rfl).symm

theorem snd_invertAll_cons (s : Screen width height) (cell : Int × Int) (rest : List (Int × Int)) :
    (s.invertAll (cell :: rest)).2 = ((s.invert cell.1 cell.2).2.invertAll rest).2 := by
  rw [snd_invertAll, snd_invertAll, List.foldl_cons]

theorem odd_succ (n : Nat) : decide ((n + 1) % 2 = 1) = !decide (n % 2 = 1) := by
  rcases Nat.mod_two_eq_zero_or_one n with heven | hodd
  · simp [heven, Nat.add_mod]
  · simp [hodd, Nat.add_mod]

/-- A pixel is turned over as often as it is named. -/
theorem lit_invertAll (s : Screen width height) (cells : List (Int × Int)) {x y : Nat}
    (hx : x < width) (hy : y < height) :
    (s.invertAll cells).2.lit x y hx hy =
      (s.lit x y hx hy ^^ decide (cells.count ((x : Int), (y : Int)) % 2 = 1)) := by
  induction cells generalizing s with
  | nil => simp [snd_invertAll]
  | cons cell rest ih =>
      rw [snd_invertAll_cons, ih, lit_invert, List.count_cons, Bool.xor_assoc]
      congr 1
      by_cases heq : cell = ((x : Int), (y : Int))
      · simp [heq, odd_succ]
      · simp [heq]

theorem snd_invertAll_of_off (h : ∀ cell ∈ cells, ¬OnScreen width height cell) :
    (s.invertAll cells).2 = s := by
  induction cells with
  | nil => rfl
  | cons cell rest ih =>
      obtain ⟨hcell, hrest⟩ := List.forall_mem_cons.mp h
      rw [snd_invertAll_cons, invert_of_off hcell, ih hrest]

theorem changed_invertAll_of_changed (h : s.changed = true) :
    (s.invertAll cells).2.changed = true := by
  induction cells generalizing s with
  | nil => exact h
  | cons cell rest ih =>
      rw [snd_invertAll_cons]
      refine ih ?_
      by_cases hon : OnScreen width height cell
      · exact changed_invert hon
      · rw [invert_of_off hon]
        exact h

theorem changed_invertAll_of_on (h : ∃ cell ∈ cells, OnScreen width height cell) :
    (s.invertAll cells).2.changed = true := by
  induction cells generalizing s with
  | nil => simp at h
  | cons cell rest ih =>
      rw [snd_invertAll_cons]
      by_cases hon : OnScreen width height cell
      · exact changed_invertAll_of_changed (changed_invert hon)
      · have hrest : ∃ cell ∈ rest, OnScreen width height cell := by simpa [hon] using h
        exact ih hrest

theorem changed_invertAll_iff :
    (s.invertAll cells).2.changed = true ↔
      s.changed = true ∨ ∃ cell ∈ cells, OnScreen width height cell := by
  constructor
  · intro h
    by_cases hon : ∃ cell ∈ cells, OnScreen width height cell
    · exact .inr hon
    · rw [snd_invertAll_of_off fun cell hcell hin => hon ⟨cell, hcell, hin⟩] at h
      exact .inl h
  · rintro (h | h)
    · exact changed_invertAll_of_changed h
    · exact changed_invertAll_of_on h

/-- If no pixel is named twice, those that are named are inverted. -/
theorem lit_invertAll_of_nodup (hnodup : cells.Nodup) {x y : Nat} (hx : x < width)
    (hy : y < height) :
    (s.invertAll cells).2.lit x y hx hy =
      (s.lit x y hx hy ^^ decide (((x : Int), (y : Int)) ∈ cells)) := by
  rw [lit_invertAll]
  by_cases hmem : ((x : Int), (y : Int)) ∈ cells
  · simp [hmem, List.count_eq_one_of_mem hnodup hmem]
  · simp [hmem, List.count_eq_zero_of_not_mem hmem]

/-- If no pixel is named twice, those on the screen are left inverted. -/
theorem pixels_invertAll_eq_iff (hnodup : cells.Nodup) :
    (s.invertAll cells).2.pixels = s.pixels ↔ ∀ cell ∈ cells, ¬OnScreen width height cell := by
  constructor
  · rintro hsame ⟨x, y⟩ hmem ⟨hleft, htop, hx, hy⟩
    obtain ⟨x, rfl⟩ := Int.eq_ofNat_of_zero_le hleft
    obtain ⟨y, rfl⟩ := Int.eq_ofNat_of_zero_le htop
    have hx' : x < width := hx
    have hy' : y < height := hy
    have hlit := lit_invertAll s cells hx' hy'
    have hcount : cells.count ((x : Int), (y : Int)) = 1 :=
      List.count_eq_one_of_mem hnodup hmem
    have hkept : (s.invertAll cells).2.lit x y hx' hy' = s.lit x y hx' hy' := by
      unfold lit
      rw [hsame]
    rw [hkept, hcount] at hlit
    simp at hlit
  · intro hoff
    rw [snd_invertAll_of_off hoff]

theorem fst_invert_iff (s : Screen width height) (cell : Int × Int) :
    (s.invert cell.1 cell.2).1.getD false = true ↔
      ∃ (x y : Nat) (hx : x < width) (hy : y < height),
        cell = ((x : Int), (y : Int)) ∧ s.lit x y hx hy = true := by
  by_cases hon : OnScreen width height cell
  · obtain ⟨x, y⟩ := cell
    obtain ⟨hleft, htop, hx, hy⟩ := hon
    obtain ⟨x, rfl⟩ := Int.eq_ofNat_of_zero_le hleft
    obtain ⟨y, rfl⟩ := Int.eq_ofNat_of_zero_le htop
    have hx' : x < width := hx
    have hy' : y < height := hy
    unfold invert
    rw [dif_pos ⟨hleft, htop, hx, hy⟩]
    constructor
    · intro hlit
      exact ⟨x, y, hx', hy', rfl, hlit⟩
    · rintro ⟨x', y', hx'', hy'', hcell, hlit⟩
      simp only [Prod.mk.injEq, Int.natCast_inj] at hcell
      obtain ⟨rfl, rfl⟩ := hcell
      exact hlit
  · rw [invert_of_off hon]
    constructor
    · intro hlit
      cases hlit
    · rintro ⟨x, y, hx, hy, rfl, -⟩
      exact (hon (onScreen_natCast hx hy)).elim

theorem invertAll_from (cells : List (Int × Int)) (hit : Bool) (s : Screen width height) :
    cells.foldl
        (fun (hit, s) cell =>
          (hit || (s.invert cell.1 cell.2).1.getD false, (s.invert cell.1 cell.2).2))
        (hit, s) =
      (hit || (s.invertAll cells).1, (s.invertAll cells).2) := by
  induction cells generalizing hit s with
  | nil => simp [invertAll]
  | cons cell rest ih =>
      unfold invertAll
      simp only [List.foldl_cons]
      rw [ih, ih]
      simp [Bool.or_assoc]

theorem fst_invertAll_cons (s : Screen width height) (cell : Int × Int)
    (rest : List (Int × Int)) :
    (s.invertAll (cell :: rest)).1 =
      ((s.invert cell.1 cell.2).1.getD false || ((s.invert cell.1 cell.2).2.invertAll rest).1) := by
  have hfrom := invertAll_from rest (false || (s.invert cell.1 cell.2).1.getD false)
    (s.invert cell.1 cell.2).2
  rw [Bool.false_or] at hfrom
  exact congrArg Prod.fst hfrom

/-- If no pixel is named twice, the answer tells whether one of those named was lit. -/
theorem fst_invertAll_iff (hnodup : cells.Nodup) :
    (s.invertAll cells).1 = true ↔
      ∃ (x y : Nat) (hx : x < width) (hy : y < height),
        ((x : Int), (y : Int)) ∈ cells ∧ s.lit x y hx hy = true := by
  induction cells generalizing s with
  | nil => simp [invertAll]
  | cons cell rest ih =>
      obtain ⟨hcell, hrest⟩ := List.nodup_cons.mp hnodup
      rw [fst_invertAll_cons, Bool.or_eq_true, fst_invert_iff, ih hrest]
      constructor
      · rintro (⟨x, y, hx, hy, rfl, hlit⟩ | ⟨x, y, hx, hy, hmem, hlit⟩)
        · exact ⟨x, y, hx, hy, .head rest, hlit⟩
        · have hother : cell ≠ ((x : Int), (y : Int)) := fun h => hcell (h ▸ hmem)
          rw [lit_invert] at hlit
          exact ⟨x, y, hx, hy, .tail cell hmem, by simpa [hother] using hlit⟩
      · rintro ⟨x, y, hx, hy, hmem, hlit⟩
        rcases List.mem_cons.mp hmem with rfl | hmem
        · exact .inl ⟨x, y, hx, hy, rfl, hlit⟩
        · have hother : cell ≠ ((x : Int), (y : Int)) := fun h => hcell (h ▸ hmem)
          refine .inr ⟨x, y, hx, hy, hmem, ?_⟩
          rw [lit_invert]
          simpa [hother] using hlit

end Screen

/-- A sprite names no pixel twice: its rows are apart, and so are the columns of a row. -/
theorem nodup_spriteCells (left top : Nat) (rows : List UInt8) :
    (spriteCells left top rows).Nodup := by
  unfold spriteCells
  rw [List.nodup_flatMap]
  constructor
  · rintro ⟨row, r⟩ -
    refine List.Nodup.filterMap ?_ List.nodup_range
    intro c c' cell hcell hcell'
    simp only [Option.mem_def, Option.ite_none_right_eq_some, Option.some.injEq] at hcell hcell'
    have hcolumn := congrArg Prod.fst (hcell.2.trans hcell'.2.symm)
    dsimp only at hcolumn
    omega
  · rw [List.pairwise_iff_getElem]
    intro i j hi hj hlt cell hcell hcell'
    simp only [List.getElem_zipIdx, List.mem_filterMap, Option.ite_none_right_eq_some,
      Option.some.injEq] at hcell hcell'
    obtain ⟨c, -, -, rfl⟩ := hcell
    obtain ⟨c', -, -, heq⟩ := hcell'
    have hrow := congrArg Prod.snd heq
    dsimp only at hrow
    omega

/-- A sprite on its way to the screen: where its top left corner comes to lie, and a byte
per row with the leftmost pixel in its top bit. -/
@[ext] structure Sprite where
  left : Nat
  top : Nat
  rows : List UInt8
  deriving Repr, DecidableEq

namespace Sprite

def cells (s : Sprite) : List (Int × Int) := spriteCells s.left s.top s.rows

/-- Whether the sprite has a dot at a place. -/
def dot (s : Sprite) (x y : Nat) : Bool :=
  s.left ≤ x && x < s.left + 8 && s.top ≤ y &&
    (s.rows[y - s.top]?.any fun row => row.toNat.testBit (7 - (x - s.left)))

variable {s : Sprite} {x y : Nat}

theorem dot_eq_true_iff :
    s.dot x y = true ↔
      ∃ r c row, c < 8 ∧ x = s.left + c ∧ y = s.top + r ∧ s.rows[r]? = some row ∧
        row.toNat.testBit (7 - c) = true := by
  unfold dot
  constructor
  · intro h
    simp only [Bool.and_eq_true, decide_eq_true_eq, Option.any_eq_true] at h
    obtain ⟨⟨⟨hleft, hright⟩, htop⟩, row, hrow, hbit⟩ := h
    exact ⟨y - s.top, x - s.left, row, by omega, by omega, by omega, hrow, hbit⟩
  · rintro ⟨r, c, row, hc, rfl, rfl, hrow, hbit⟩
    simp [hc, hrow, hbit]

theorem mem_cells_iff : ((x : Int), (y : Int)) ∈ s.cells ↔ s.dot x y = true := by
  rw [dot_eq_true_iff]
  unfold cells spriteCells
  simp only [List.mem_flatMap, List.mem_filterMap, List.mem_range, Prod.exists,
    List.mk_mem_zipIdx_iff_getElem?, Option.ite_none_right_eq_some, Option.some.injEq,
    Prod.mk.injEq, Int.natCast_inj]
  constructor
  · rintro ⟨row, r, hrow, c, hc, hbit, rfl, rfl⟩
    exact ⟨r, c, row, hc, rfl, rfl, hrow, hbit⟩
  · rintro ⟨r, c, row, hc, rfl, rfl, hrow, hbit⟩
    exact ⟨row, r, hrow, c, hc, hbit, rfl, rfl⟩

theorem nodup_cells (s : Sprite) : s.cells.Nodup := nodup_spriteCells s.left s.top s.rows

end Sprite

namespace Screen
variable {width height : Nat}

/-- A sprite inverts the pixels on which it has a dot. -/
theorem lit_invertAll_cells (s : Screen width height) (sprite : Sprite) {x y : Nat}
    (hx : x < width) (hy : y < height) :
    (s.invertAll sprite.cells).2.lit x y hx hy = (s.lit x y hx hy ^^ sprite.dot x y) := by
  rw [lit_invertAll_of_nodup sprite.nodup_cells]
  simp [Sprite.mem_cells_iff]

theorem fst_invertAll_cells_iff {s : Screen width height} {sprite : Sprite} :
    (s.invertAll sprite.cells).1 = true ↔
      ∃ (x y : Nat) (hx : x < width) (hy : y < height),
        sprite.dot x y = true ∧ s.lit x y hx hy = true := by
  rw [fst_invertAll_iff sprite.nodup_cells]
  simp only [Sprite.mem_cells_iff]

theorem changed_invertAll_cells_iff {s : Screen width height} {sprite : Sprite} :
    (s.invertAll sprite.cells).2.changed = true ↔
      s.changed = true ∨
        ∃ (x y : Nat) (_ : x < width) (_ : y < height), sprite.dot x y = true := by
  rw [changed_invertAll_iff]
  apply or_congr_right
  constructor
  · rintro ⟨⟨x, y⟩, hmem, hleft, htop, hx, hy⟩
    obtain ⟨x, rfl⟩ := Int.eq_ofNat_of_zero_le hleft
    obtain ⟨y, rfl⟩ := Int.eq_ofNat_of_zero_le htop
    exact ⟨x, y, hx, hy, Sprite.mem_cells_iff.mp hmem⟩
  · rintro ⟨x, y, hx, hy, hdot⟩
    exact ⟨(x, y), Sprite.mem_cells_iff.mpr hdot, onScreen_natCast hx hy⟩

end Screen
end Chip8
