import Chip8.Layout

/-!
# Keypad

Sixteen keys, each up or down, replaced as a whole by one snapshot at a time.
-/
namespace Chip8

structure Keypad where
  down : Vector Bool keyCount
  deriving Repr, DecidableEq

namespace Keypad

def released : Keypad := ⟨Vector.replicate keyCount false⟩

/-- The keypad that a snapshot describes, if it has an entry for each key and no more. -/
def ofSnapshot? (keys : Array Bool) : Option Keypad :=
  if h : keys.size = keyCount then some ⟨⟨keys, h⟩⟩ else none

/-- What is said of a snapshot of the wrong length. -/
def wrongLength (count : Nat) : String :=
  "Keypad snapshot must contain " ++ toString keyCount ++ " keys, not " ++ toString count

/-- Whether a key is down; numbers that name no key are never down. -/
def isDown (k : Keypad) (key : Int) : Bool :=
  if key < 0 then false else k.down[key.toNat]?.getD false

/-- The lowest-numbered key that is down. -/
def firstDown? (k : Keypad) : Option (Fin keyCount) :=
  (List.finRange keyCount).find? fun key => k.down[key]

end Keypad
end Chip8
