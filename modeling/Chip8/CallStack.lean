import Chip8.Storage

/-!
# Call stack

A bounded list of entries, oldest first; the machine keeps return addresses in
it. The capacity is any integer; one that is not positive leaves no room at all.
-/
namespace Chip8

structure CallStack (α : Type) where
  capacity : Int
  items : Array α
  deriving Repr, DecidableEq

namespace CallStack

inductive Error where
  | overflow
  | underflow
  deriving Repr, DecidableEq

def Error.message : Error → String
  | overflow => "Stack overflow"
  | underflow => "Stack underflow"

variable {α : Type}

def empty (capacity : Int) : CallStack α := ⟨capacity, #[]⟩

/-- An empty stack, if there is space for as many entries as it may come to hold. -/
def new (capacity : Int) : Except Storage.Error (CallStack α) := do
  let _ ← Storage.entries Storage.wordSize capacity
  pure (empty capacity)

def depth (s : CallStack α) : Nat := s.items.size

/-- Puts an entry on top, if there is room. -/
def push (item : α) : EStateM Error (CallStack α) Unit := do
  let s ← get
  if s.capacity ≤ s.depth then throw .overflow
  set { s with items := s.items.push item }

def pop : EStateM Error (CallStack α) α := do
  let s ← get
  match s.items.back? with
  | none => throw .underflow
  | some item =>
      set { s with items := s.items.pop }
      pure item

end CallStack
end Chip8
