import Chip8.Layout
import Chip8.Text.Integer
import Chip8.Text.Lowercase

/-!
# Key layouts

A layout says which code of the host stands for each of the sixteen keys. It is
written as sixteen integers with commas between them, key 0 first, no two of
them equal. Where the host reports characters, a layout is folded: each code is
replaced by the code of its lower-case form before codes are compared.
-/
namespace Chip8

structure KeyLayout where
  /-- The code of each key, key 0 first. -/
  codes : List Int
  deriving Repr, DecidableEq

namespace KeyLayout

inductive Error where
  | wrongCount
  | notInteger
  | repeated
  /-- A code that has no lower-case form. -/
  | unfoldable (error : Text.CaseError)
  deriving Repr, DecidableEq

def Error.message : Error → String
  | wrongCount => "Incorrect number of keys defined -- 16 required.  Use commas to split numbers"
  | notInteger => "Defined keys are not all integer values"
  | repeated => "Duplicate keys defined"
  | unfoldable error => error.message

/-- The layout of a plain keyboard. -/
def standard : String := "120,49,50,51,113,119,101,97,115,100,122,99,52,114,102,118"

def readCode (folded : Bool) (part : List Char) : Except Error Int :=
  match Text.readInt? part with
  | none => throw .notInteger
  | some code =>
      if folded then
        match Text.lowercase code with
        | .ok code => pure code
        | .error e => throw (.unfoldable e)
      else pure code

/-- Reads parts in order, none of which may repeat a code already read. -/
def readCodes (folded : Bool) (seen : List Int) : List (List Char) → Except Error (List Int)
  | [] => pure seen
  | part :: rest => do
      let code ← readCode folded part
      if code ∈ seen then throw .repeated else readCodes folded (seen ++ [code]) rest

def parse (folded : Bool) (text : String) : Except Error KeyLayout :=
  let parts := text.toList.splitOn ','
  if parts.length = keyCount then (readCodes folded [] parts).map KeyLayout.mk
  else throw .wrongCount

def keyOf? (l : KeyLayout) (code : Int) : Option Nat := l.codes.idxOf? code

/-- Codes with their keys, key 0 first. -/
def table (l : KeyLayout) : List (Int × Nat) := l.codes.zipIdx

/-- For each key, whether its code is among those held down. -/
def states (l : KeyLayout) (held : List Int) : Array Bool :=
  (l.codes.map held.contains).toArray

end KeyLayout
end Chip8
