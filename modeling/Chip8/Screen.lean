import Chip8.Storage

/-!
# Screen

One plane of pixels in row-major order, and a flag that tells whether anything
was drawn since the flag was last taken. Drawing inverts pixels; a pixel outside
the screen is left out, never wrapped to the other side.
-/
namespace Chip8

structure Screen (width height : Nat) where
  pixels : Vector Bool (width * height)
  changed : Bool
  deriving DecidableEq

namespace Screen

inductive SizeError where
  /-- It would have no pixels. -/
  | notPositive
  | storage (error : Storage.Error)
  deriving Repr, DecidableEq

def SizeError.message : SizeError → String
  | notPositive => "Video size must be positive"
  | storage error => error.message

/-- The width and height of a screen, if there can be one of that size. -/
def checkSize (width height : Int) : Except SizeError (Nat × Nat) := do
  if width ≤ 0 ∨ height ≤ 0 then throw .notPositive
  let _ ← (Storage.entries Storage.wordSize (width * height)).mapError SizeError.storage
  pure (width.toNat, height.toNat)

inductive IndexError where
  | outside
  | storage (error : Storage.Error)
  deriving Repr, DecidableEq

def IndexError.message : IndexError → String
  | outside => "list index out of range"
  | storage error => error.message

variable {width height : Nat}

/-- All pixels dark, and marked changed so that the first frame is painted. -/
def blank (width height : Nat) : Screen width height :=
  ⟨Vector.replicate (width * height) false, true⟩

def clear (_ : Screen width height) : Screen width height :=
  blank width height

/-- The row-major index of a pixel of the screen. -/
theorem index_lt {x y : Nat} (hx : x < width) (hy : y < height) :
    y * width + x < width * height := by
  have h : (y + 1) * width ≤ height * width := Nat.mul_le_mul_right width hy
  rw [Nat.add_mul, Nat.one_mul] at h
  rw [Nat.mul_comm width height]
  omega

def lit (s : Screen width height) (x y : Nat) (hx : x < width) (hy : y < height) : Bool :=
  have := index_lt hx hy
  s.pixels[y * width + x]

/-- Inverts a pixel. The answer is whether it was lit, or nothing off the screen. -/
def invert (s : Screen width height) (x y : Int) : Option Bool × Screen width height :=
  if h : 0 ≤ x ∧ 0 ≤ y ∧ x.toNat < width ∧ y.toNat < height then
    let was := s.lit x.toNat y.toNat h.2.2.1 h.2.2.2
    (some was,
      { pixels := s.pixels.set (y.toNat * width + x.toNat) (!was) (index_lt h.2.2.1 h.2.2.2)
        changed := true })
  else
    (none, s)

/-- The pixel at a row-major index, which counts back from the last pixel when
the index is below zero. -/
def pixelAt (s : Screen width height) (x y : Int) : Except IndexError Bool :=
  let index := y * width + x
  if !Storage.fitsWord index then throw (.storage .uncountable)
  else
    let index := if index < 0 then index + (width * height : Nat) else index
    if index < 0 then throw .outside
    else
      match s.pixels[index.toNat]? with
      | some lit => pure lit
      | none => throw .outside

/-- Reports whether anything was drawn since the last report. -/
def takeChanged (s : Screen width height) : Bool × Screen width height :=
  (s.changed, { s with changed := false })

/-- Inverts pixels one after another, and tells whether any of them was lit. -/
def invertAll (s : Screen width height) (cells : List (Int × Int)) :
    Bool × Screen width height :=
  cells.foldl
    (fun (hit, s) cell =>
      let (was, s) := s.invert cell.1 cell.2
      (hit || was.getD false, s))
    (false, s)

end Screen
end Chip8
