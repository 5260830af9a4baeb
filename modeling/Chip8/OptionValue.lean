import Chip8.Number.Numeral
import Chip8.Text.Quoted

/-!
# Option values

What the program is asked to do comes as a value for each option. Any value may
come for any option: whether it is of use is found out where it is used.
-/
namespace Chip8

inductive OptionValue where
  /-- The choice is left to the program. -/
  | null
  | numeral (n : Numeral)
  | text (s : String)
  | list (items : List OptionValue)
  /-- Values by name. -/
  | record (fields : List (String × OptionValue))
  deriving Repr, Inhabited

namespace OptionValue

def int (n : Int) : OptionValue := numeral (.int n)

def flag (on : Bool) : OptionValue := numeral (.flag on)

/-- The word of messages for values of this kind. -/
def kindName : OptionValue → String
  | null => "NoneType"
  | numeral n => n.kindName
  | text _ => "str"
  | list _ => "list"
  | record _ => "dict"

/-- Whether the choice is left to the program. -/
def isNull : OptionValue → Bool
  | null => true
  | _ => false

/-- Whether the value counts as a yes: what is left open, zero and empty does not. -/
def isYes : OptionValue → Bool
  | null => false
  | numeral n => n.toNumber.exact != .zero
  | text s => s != ""
  | list items => !items.isEmpty
  | record fields => !fields.isEmpty

def numeral? : OptionValue → Option Numeral
  | numeral n => some n
  | _ => none

def int? (v : OptionValue) : Option Int := v.numeral?.bind Numeral.int?

mutual

/-- The value as messages show it among other values, where a text is quoted. -/
def quoted : OptionValue → String
  | null => "None"
  | numeral n => n.inMessage
  | text s => Text.quoteInMessage s
  | list items => "[" ++ String.intercalate ", " (quotedItems items) ++ "]"
  | record fields => "\x7b" ++ String.intercalate ", " (quotedFields fields) ++ "\x7d"

def quotedItems : List OptionValue → List String
  | [] => []
  | v :: rest => v.quoted :: quotedItems rest

def quotedFields : List (String × OptionValue) → List String
  | [] => []
  | (name, v) :: rest => (Text.quoteInMessage name ++ ": " ++ v.quoted) :: quotedFields rest

end

def inMessage : OptionValue → String
  | text s => s
  | v => v.quoted

end OptionValue
end Chip8
