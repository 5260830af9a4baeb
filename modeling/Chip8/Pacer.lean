import Chip8.Number.Basic

/-!
# Pacer

Turns elapsed time into a whole number of instructions. What is left of an
instruction is carried over to the next call, so that over many calls nothing
is gained or lost but by rounding. Time that runs backwards counts as none.
-/
namespace Chip8

/-- Whether two calls end alike can be decided. -/
instance decidableEqResult {ε σ α : Type} [DecidableEq ε] [DecidableEq σ] [DecidableEq α] :
    DecidableEq (EStateM.Result ε σ α)
  | .ok a s, .ok b t => decidable_of_iff (a = b ∧ s = t) (by rw [EStateM.Result.ok.injEq])
  | .error d s, .error e t => decidable_of_iff (d = e ∧ s = t) (by rw [EStateM.Result.error.injEq])
  | .ok .., .error .. => .isFalse nofun
  | .error .., .ok .. => .isFalse nofun

structure Pacer where
  clockSpeed : Number
  carry : Binary64
  deriving Repr, DecidableEq

namespace Pacer

/-- Instructions per second when nothing else is asked for. -/
def defaultClockSpeed : Number := .int 700

/-- What is said of a clock speed of zero or less. -/
def notPositive : String := "Clock speed must be above zero"

/-- A pacer with nothing carried. A speed that is zero or less is refused. -/
def ofClockSpeed? (clockSpeed : Number) : Option Pacer :=
  if clockSpeed.le (.int 0) then none else some ⟨clockSpeed, .zero⟩

/-- The time that has passed, in instructions, with what was carried. -/
def budget (p : Pacer) (elapsed : Number) : Except Number.Error Binary64 := do
  (← p.clockSpeed.mul elapsed.clampNegative).addFloat p.carry

/-- The instructions that an elapsed time pays for. The rest of the time is carried. -/
def instructionsFor (elapsed : Number) : EStateM Number.Error Pacer Int := do
  let p ← get
  let budget ← ofExcept (p.budget elapsed)
  let count ← ofExcept budget.wholePart
  set { p with carry := budget.sub (Binary64.round count) }
  pure count

end Pacer
end Chip8
