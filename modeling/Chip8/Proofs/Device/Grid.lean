import Chip8.Device.Display

/-!
# What stands on a pad

Writes are replayed on a grid of cells, one cell for each character. A pixel is a few cells
of one row, and no two pixels share a cell. So to write the pixels in which two frames
differ turns a grid that shows the one into a grid that shows the other. The row above the
picture is left out of account: it is for the title.
-/
namespace Chip8

structure Cell where
  char : Char
  reversed : Bool
  deriving Repr, DecidableEq

/-- The cells of a pad, by row and column. -/
abbrev Grid := Nat → Nat → Cell

namespace Grid

def blank : Grid := fun _ _ => ⟨' ', false⟩

/-- Writes a text, one cell for each character. -/
def write (g : Grid) (row column : Int) (text : String) (reversed : Bool) : Grid := fun r c =>
  if (r : Int) = row ∧ column ≤ c ∧ (c : Int) < column + text.length then
    ⟨text.toList.getD (c - column).toNat ' ', reversed⟩
  else g r c

/-- What a call makes of the pad. A new pad is blank. -/
def take (g : Grid) : HostCall → Grid
  | .terminal (.newPad _ _) => blank
  | .terminal (.write row column text reversed) => g.write row column text reversed
  | _ => g

def after (g : Grid) (calls : List HostCall) : Grid := calls.foldl take g

theorem after_append (g : Grid) (calls calls' : List HostCall) :
    g.after (calls ++ calls') = (g.after calls).after calls' :=
  List.foldl_append

end Grid

namespace Display
variable {width height scale : Nat}

/-- The write of a pixel, by its index in row-major order. -/
def pixelWrite (width scale k : Nat) (lit : Bool) : TerminalCall :=
  .write ((k / width : Nat) + 1) ((k % width * scale : Nat)) (cells scale) lit

/-- Below its first row, the grid shows the pixels that are lit, and nothing else. -/
def Shows (width scale : Nat) (lit : Nat → Bool) (g : Grid) : Prop :=
  ∀ y column, g (y + 1) column =
    ⟨' ', decide (column < width * scale) && lit (y * width + column / scale)⟩

theorem length_cells (scale : Nat) : (cells scale).length = scale := by
  simp [cells]

theorem getD_cells (scale i : Nat) : (cells scale).toList.getD i ' ' = ' ' := by
  unfold cells
  rw [String.toList_ofList, List.getD_eq_getElem?_getD, List.getElem?_replicate]
  split <;> rfl

/-- The cells of a pixel are those from which its index is computed back. -/
theorem covered_iff (hwidth : 0 < width) (scale k y column : Nat) :
    (y = k / width ∧ k % width * scale ≤ column ∧ column < k % width * scale + scale) ↔
      column < width * scale ∧ y * width + column / scale = k := by
  constructor
  · rintro ⟨rfl, hleft, hright⟩
    have hx : column / scale = k % width := by
      refine Nat.div_eq_of_lt_le hleft ?_
      rwa [Nat.succ_mul]
    have hscale : 0 < scale := by omega
    rw [hx, ← Nat.div_lt_iff_lt_mul hscale, hx]
    exact ⟨Nat.mod_lt k hwidth, Nat.div_add_mod' k width⟩
  · rintro ⟨hcolumn, rfl⟩
    have hscale : 0 < scale := Nat.pos_of_ne_zero (by rintro rfl; simp at hcolumn)
    have hx : column / scale < width := (Nat.div_lt_iff_lt_mul hscale).mpr hcolumn
    have hdiv : (y * width + column / scale) / width = y := by
      rw [Nat.add_comm, Nat.add_mul_div_right _ _ hwidth, Nat.div_eq_of_lt hx, Nat.zero_add]
    have hmod : (y * width + column / scale) % width = column / scale := by
      rw [Nat.add_comm, Nat.add_mul_mod_self_right, Nat.mod_eq_of_lt hx]
    rw [hdiv, hmod]
    refine ⟨rfl, Nat.div_mul_le_self column scale, ?_⟩
    have hrest := Nat.div_add_mod' column scale
    have hlt := Nat.mod_lt column hscale
    omega

/-- To write one pixel changes that pixel and no other. -/
theorem Shows.pixelWrite {lit : Nat → Bool} {g : Grid} (h : Shows width scale lit g)
    (hwidth : 0 < width) (k : Nat) (now : Bool) :
    Shows width scale (fun j => if j = k then now else lit j)
      (g.take (.terminal (pixelWrite width scale k now))) := by
  intro y column
  show g.write _ _ _ _ (y + 1) column = _
  have hcovered := covered_iff hwidth scale k y column
  unfold Grid.write
  rw [getD_cells, length_cells]
  have hcast : ((y + 1 : Nat) : Int) = (k / width : Nat) + 1 ∧
      ((k % width * scale : Nat) : Int) ≤ column ∧
        (column : Int) < (k % width * scale : Nat) + (scale : Nat) ↔
      y = k / width ∧ k % width * scale ≤ column ∧ column < k % width * scale + scale := by
    omega
  simp only [hcast, hcovered]
  by_cases hin : column < width * scale
  · by_cases hk : y * width + column / scale = k <;> simp [hin, hk, h y column]
  · simp [hin, h y column]

theorem shows_blank : Shows width scale (fun _ => false) Grid.blank := by
  intro y column
  simp [Grid.blank]

theorem Shows.congr {lit lit' : Nat → Bool} {g : Grid} (h : Shows width scale lit g)
    (hsame : ∀ k, lit k = lit' k) : Shows width scale lit' g :=
  (funext hsame : lit = lit') ▸ h

/-- The title is written above the picture. -/
theorem Shows.title {lit : Nat → Bool} {g : Grid} (h : Shows width scale lit g) (column : Int)
    (text : String) (reversed : Bool) :
    Shows width scale lit (g.take (.terminal (.write 0 column text reversed))) := by
  intro y c
  show g.write _ _ _ _ (y + 1) c = _
  unfold Grid.write
  rw [if_neg (by omega)]
  exact h y c

/-- The writes of the pixels in which two frames differ, in row-major order. -/
def differences (width scale count : Nat) (before now : Nat → Bool) : List TerminalCall :=
  ((List.range count).filter fun k => before k != now k).map fun k =>
    pixelWrite width scale k (now k)

/-- Once the first pixels that differ are written, these are shown as they are now. -/
theorem Shows.differences {before now : Nat → Bool} {g : Grid}
    (h : Shows width scale before g) {count : Nat} (hcount : count ≤ width * height) :
    Shows width scale (fun k => if k < count then now k else before k)
      (g.after ((differences width scale count before now).map .terminal)) := by
  induction count with
  | zero => exact h.congr fun k => by simp
  | succ count ih =>
      have hwidth : 0 < width := Nat.pos_of_ne_zero (by rintro rfl; omega)
      have hbefore := ih (Nat.le_of_succ_le hcount)
      unfold Display.differences at hbefore ⊢
      rw [List.range_succ, List.filter_append, List.map_append, List.map_append,
        Grid.after_append]
      have hsucc (k : Nat) : k < count + 1 ↔ k = count ∨ k < count := by omega
      cases hdiffer : before count != now count with
      | true =>
          have hwritten := hbefore.pixelWrite hwidth count (now count)
          rw [List.filter_cons_of_pos (by simpa using hdiffer)]
          refine hwritten.congr fun k => ?_
          by_cases hk : k = count
          · simp [hk]
          · simp [hk, hsucc]
      | false =>
          rw [List.filter_cons_of_neg (by simpa using hdiffer)]
          refine hbefore.congr fun k => ?_
          by_cases hk : k = count
          · simpa [hk] using hdiffer
          · simp [hk, hsucc]

def litIn (frame : Array Bool) (k : Nat) : Bool := frame.getD k false

theorem litIn_replicate (n k : Nat) : litIn (Array.replicate n false) k = false := by
  unfold litIn
  rw [Array.getD_eq_getD_getElem?, Array.getElem?_replicate]
  split <;> rfl

theorem litIn_of_le {frame : Array Bool} {k : Nat} (h : frame.size ≤ k) :
    litIn frame k = false := by
  simp [litIn, h]

theorem filterMap_unless {α β : Type} (p : α → Bool) (f : α → β) (l : List α) :
    (l.filterMap fun a => if p a then some (f a) else none) = (l.filter p).map f := by
  induction l with
  | nil => rfl
  | cons a rest ih =>
      cases hp : p a <;> simp [hp, ih]

theorem cellOf_natCast (width scale k : Nat) :
    cellOf width scale k = (((k / width : Nat) : Int) + 1, ((k % width * scale : Nat) : Int)) := by
  unfold cellOf
  rw [Int.fdiv_eq_ediv_of_nonneg _ (Int.natCast_nonneg width),
    Int.fmod_eq_emod_of_nonneg _ (Int.natCast_nonneg width)]
  simp

theorem repaints_eq {count : Nat} {shown pixels : Array Bool} (hshown : shown.size = count)
    (hpixels : pixels.size = count) :
    repaints width scale shown.toList pixels.toList =
      differences width scale count (litIn shown) (litIn pixels) := by
  have hindexed : (shown.toList.zip pixels.toList).zipIdx =
      (List.range count).map fun k => ((litIn shown k, litIn pixels k), k) := by
    apply List.ext_getElem
    · simp [hshown, hpixels]
    · intro k hk hk'
      have hlt : k < count := by simpa using hk'
      simp [litIn, hshown, hpixels, hlt]
  unfold repaints differences
  rw [hindexed, List.filterMap_map, ← filterMap_unless]
  congr 1
  funext k
  simp only [Function.comp_apply, cellOf_natCast]
  by_cases hsame : litIn shown k = litIn pixels k
  · simp [hsame]
  · simp [hsame, pixelWrite]

/-- Every cell of a pixel is in reverse video exactly if the pixel is lit. -/
theorem Shows.pixel {lit : Nat → Bool} {g : Grid} (h : Shows width scale lit g) {x y i : Nat}
    (hx : x < width) (hi : i < scale) :
    g (y + 1) (x * scale + i) = ⟨' ', lit (y * width + x)⟩ := by
  have hdiv : (x * scale + i) / scale = x := by
    rw [Nat.add_comm, Nat.add_mul_div_right _ _ (Nat.zero_lt_of_lt hi), Nat.div_eq_of_lt hi,
      Nat.zero_add]
  have hin : x * scale + i < width * scale := by
    have hnext : (x + 1) * scale ≤ width * scale := Nat.mul_le_mul_right scale hx
    rw [Nat.succ_mul] at hnext
    omega
  rw [h y, hdiv, decide_eq_true hin, Bool.true_and]

theorem Shows.outside {frame : Array Bool} {g : Grid} (h : Shows width scale (litIn frame) g)
    (hsize : frame.size = width * height) {row column : Nat}
    (hout : height < row ∨ 1 ≤ row ∧ width * scale ≤ column) : g row column = ⟨' ', false⟩ := by
  obtain ⟨y, rfl⟩ : ∃ y, row = y + 1 := ⟨row - 1, by omega⟩
  rw [h y column]
  rcases hout with hrow | ⟨-, hcolumn⟩
  · have hbelow : width * height ≤ y * width + column / scale := by
      have hle : height * width ≤ y * width := Nat.mul_le_mul_right width (by omega)
      rw [Nat.mul_comm width height]
      exact Nat.le_trans hle (Nat.le_add_right _ _)
    rw [litIn_of_le (hsize ▸ hbelow), Bool.and_false]
  · rw [decide_eq_false (Nat.not_lt.mpr hcolumn), Bool.false_and]

/-- The write lies on the pad, and neither in its last row nor in its last column. -/
def Inside (width height scale : Nat) : TerminalCall → Prop
  | .write row column text _ =>
      0 ≤ row ∧ row ≤ height ∧ 0 ≤ column ∧ column + text.length ≤ (width * scale : Nat)
  | _ => True

theorem inside_pixelWrite {k : Nat} (hk : k < width * height) (lit : Bool) :
    Inside width height scale (pixelWrite width scale k lit) := by
  have hwidth : 0 < width := Nat.pos_of_ne_zero (by rintro rfl; simp at hk)
  have hrow : k / width < height := (Nat.div_lt_iff_lt_mul hwidth).mpr (by rwa [Nat.mul_comm])
  have hcolumn : (k % width + 1) * scale ≤ width * scale :=
    Nat.mul_le_mul_right scale (Nat.mod_lt k hwidth)
  rw [Nat.succ_mul] at hcolumn
  simp only [Inside, pixelWrite, length_cells]
  generalize k / width = y at hrow ⊢
  generalize k % width * scale = column at hcolumn ⊢
  omega

theorem inside_of_mem_differences {count : Nat} {before now : Nat → Bool} {c : TerminalCall}
    (hcount : count ≤ width * height) (h : c ∈ differences width scale count before now) :
    Inside width height scale c := by
  obtain ⟨k, hk, rfl⟩ := List.mem_map.mp h
  have hlt : k < count := List.mem_range.mp (List.mem_filter.mp hk).1
  exact inside_pixelWrite (Nat.lt_of_lt_of_le hlt hcount) _

end Display
end Chip8
