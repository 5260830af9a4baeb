import Chip8.Proofs.Screen.Sprite
import Mathlib.Data.List.Induction

/-!
# What a screen remembers

Whatever is asked of a screen that was blank at first, a pixel is lit exactly if it was
inverted an odd number of times since the screen was last cleared. An inversion off the screen
leaves no mark. The flag tells whether anything left one since it was last taken, and a new
screen counts as marked.
-/
namespace Chip8.Screen

inductive Request where
  | invert (x y : Int)
  | clear
  | takeChanged
  deriving DecidableEq

variable {width height : Nat}

def Request.perform (s : Screen width height) : Request → Screen width height
  | invert x y => (s.invert x y).2
  | clear => s.clear
  | takeChanged => s.takeChanged.2

def after (s : Screen width height) (requests : List Request) : Screen width height :=
  requests.foldl Request.perform s

theorem after_snoc (s : Screen width height) (requests : List Request) (r : Request) :
    s.after (requests ++ [r]) = r.perform (s.after requests) := by
  unfold after
  rw [List.foldl_append, List.foldl_cons, List.foldl_nil]

/-- The requests behind the last one of a kind, or all of them if there is none. -/
def since (kind : Request) (requests : List Request) : List Request :=
  (requests.reverse.takeWhile (· ≠ kind)).reverse

theorem since_snoc_self (kind : Request) (requests : List Request) :
    since kind (requests ++ [kind]) = [] := by
  simp [since]

theorem since_snoc_of_ne {kind r : Request} (h : r ≠ kind) (requests : List Request) :
    since kind (requests ++ [r]) = since kind requests ++ [r] := by
  simp [since, h]

/-- The request leaves a mark on a screen of this size. -/
def Request.Marks (width height : Nat) : Request → Prop
  | invert x y => OnScreen width height (x, y)
  | clear => True
  | takeChanged => False

theorem lit_blank {x y : Nat} (hx : x < width) (hy : y < height) :
    (blank width height).lit x y hx hy = false := by
  simp [blank, lit]

theorem lit_after (requests : List Request) {x y : Nat} (hx : x < width) (hy : y < height) :
    ((blank width height).after requests).lit x y hx hy =
      decide ((since .clear requests).count (.invert x y) % 2 = 1) := by
  induction requests using List.reverseRecOn with
  | nil => exact lit_blank hx hy
  | append_singleton requests r ih =>
      rw [after_snoc]
      cases r with
      | invert x' y' =>
          rw [since_snoc_of_ne (by simp), List.count_append, List.count_singleton]
          show (Screen.invert _ x' y').2.lit x y hx hy = _
          rw [lit_invert (x', y'), ih]
          by_cases hsame : x' = x ∧ y' = y
          · obtain ⟨rfl, rfl⟩ := hsame
            simp [odd_succ]
          · simp [hsame]
      | clear =>
          rw [since_snoc_self]
          exact lit_blank hx hy
      | takeChanged =>
          rw [since_snoc_of_ne (by simp), List.count_append, List.count_singleton]
          exact ih

theorem changed_after (requests : List Request) :
    ((blank width height).after requests).changed = true ↔
      .takeChanged ∉ requests ∨ ∃ r ∈ since .takeChanged requests, r.Marks width height := by
  induction requests using List.reverseRecOn with
  | nil => simp [after, blank]
  | append_singleton requests r ih =>
      rw [after_snoc]
      cases r with
      | invert x y =>
          rw [since_snoc_of_ne (by simp)]
          show (Screen.invert _ x y).2.changed = true ↔ _
          by_cases hon : OnScreen width height (x, y)
          · rw [changed_invert hon]
            have hmark : (Request.invert x y).Marks width height := hon
            simp [hmark]
          · rw [invert_of_off hon, ih]
            have hmark : ¬(Request.invert x y).Marks width height := hon
            simp [or_and_right, exists_or, hmark]
      | clear =>
          rw [since_snoc_of_ne (by simp)]
          simp [Request.perform, clear, blank, Request.Marks]
      | takeChanged =>
          rw [since_snoc_self]
          simp [Request.perform, takeChanged]

/-- A screen that can be had has no more pixels than a word counts. -/
theorem fitsWord_of_checkSize {width height : Int} {size : Nat × Nat}
    (h : checkSize width height = .ok size) : Storage.fitsWord (width * height) = true := by
  by_contra hfits
  rw [Bool.not_eq_true] at hfits
  unfold checkSize at h
  simp only [Storage.entries, hfits] at h
  split at h
  · cases h
  · cases h

theorem pixelAt_eq_lit (s : Screen width height) {x y : Nat} (hx : x < width) (hy : y < height)
    (hfits : Storage.fitsWord (width * height : Nat) = true) :
    s.pixelAt x y = .ok (s.lit x y hx hy) := by
  have hindex := index_lt hx hy
  have hcast : (y : Int) * width + x = (y * width + x : Nat) := by simp
  have hword : Storage.fitsWord (y * width + x : Nat) = true := by
    have hlimit : 0 ≤ Storage.wordLimit := by decide
    simp only [Storage.fitsWord, Bool.and_eq_true, decide_eq_true_eq] at hfits ⊢
    omega
  have hnonneg : ¬ ((y * width + x : Nat) : Int) < 0 := by omega
  unfold pixelAt lit
  simp only [hcast, hword, Bool.not_true, Bool.false_eq_true, if_false, hnonneg, Int.toNat_natCast,
    Vector.getElem?_eq_getElem hindex]
  rfl

theorem fst_invert (s : Screen width height) {x y : Nat} (hx : x < width) (hy : y < height) :
    (s.invert x y).1 = some (s.lit x y hx hy) := by
  unfold invert
  rw [dif_pos (onScreen_natCast hx hy)]
  rfl

/-- A screen shows the pixels that were inverted an odd number of times since it was last
cleared, and tells so when one of them is inverted again. Off the screen nothing happens. -/
theorem remembers_requests (width height : Nat) (requests : List Request) :
    let s := (blank width height).after requests
    (∀ x y : Nat, x < width → y < height →
      let lit := decide ((since .clear requests).count (.invert x y) % 2 = 1)
      (s.invert x y).1 = some lit ∧
      (checkSize width height = .ok (width, height) → s.pixelAt x y = .ok lit)) ∧
    (∀ x y : Int, ¬OnScreen width height (x, y) → s.invert x y = (none, s)) ∧
    (s.takeChanged.1 = true ↔
      .takeChanged ∉ requests ∨ ∃ r ∈ since .takeChanged requests, r.Marks width height) ∧
    s.pixels.toArray.size = width * height := by
  refine ⟨fun x y hx hy => ?_, fun x y hoff => invert_of_off hoff, changed_after requests,
    Vector.size_toArray _⟩
  rw [← lit_after requests hx hy]
  refine ⟨fst_invert _ hx hy, fun hsize => pixelAt_eq_lit _ hx hy ?_⟩
  rw [Int.natCast_mul]
  exact fitsWord_of_checkSize hsize

/-- Requests of each kind, one of them off the screen. -/
def someRequests : List Request :=
  [.invert 1 1, .clear, .invert 2 3, .takeChanged, .invert (-1) 0]

theorem remembers_pixel :
    ((blank 64 32).after someRequests).pixelAt 2 3 = .ok true ∧
    ((blank 64 32).after someRequests).pixelAt 1 1 = .ok false ∧
    ((blank 64 32).after someRequests).invert (-1) 0 =
      (none, (blank 64 32).after someRequests) ∧
    ¬ ((blank 64 32).after someRequests).takeChanged.1 = true := by
  obtain ⟨hpixels, hoff, hchanged, -⟩ := remembers_requests 64 32 someRequests
  refine ⟨(hpixels 2 3 (by decide) (by decide)).2 rfl, (hpixels 1 1 (by decide) (by decide)).2 rfl,
    hoff (-1) 0 (by decide), fun h => ?_⟩
  rcases hchanged.mp h with habsent | ⟨r, hr, hmark⟩
  · exact habsent (by decide)
  · obtain rfl : r = .invert (-1) 0 := by simpa [someRequests, since] using hr
    exact absurd hmark (by unfold Request.Marks; decide)

end Chip8.Screen
