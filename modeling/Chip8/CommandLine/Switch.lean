import Chip8.Host.Call
import Chip8.KeyLayout
import Chip8.Remark

/-!
# Switches

The switches of the command line, each with a letter and a word, and the
settings they lead to.
-/
namespace Chip8.CommandLine

inductive Switch where
  | help
  | clockSpeed
  | renderer
  | scale
  | mute
  | keymap
  | logLevel
  | debug
  deriving Repr, DecidableEq

namespace Switch

/-- Every switch, in the order in which messages list them. -/
def all : List Switch := [help, clockSpeed, renderer, scale, mute, keymap, logLevel, debug]

def letter : Switch → Char
  | help => 'h'
  | clockSpeed => 'c'
  | renderer => 'r'
  | scale => 's'
  | mute => 'm'
  | keymap => 'k'
  | logLevel => 'l'
  | debug => 'd'

def word : Switch → List Char
  | help => ['h', 'e', 'l', 'p']
  | clockSpeed => ['c', 'l', 'o', 'c', 'k', '_', 's', 'p', 'e', 'e', 'd']
  | renderer => ['r', 'e', 'n', 'd', 'e', 'r', 'e', 'r']
  | scale => ['s', 'c', 'a', 'l', 'e']
  | mute => ['m', 'u', 't', 'e']
  | keymap => ['k', 'e', 'y', 'm', 'a', 'p']
  | logLevel => ['l', 'o', 'g', '_', 'l', 'e', 'v', 'e', 'l']
  | debug => ['d', 'e', 'b', 'u', 'g']

/-- The long form, with its two dashes. -/
def long (s : Switch) : String := String.ofList ('-' :: '-' :: s.word)

/-- Both forms, as messages name a switch. -/
def label (s : Switch) : String := String.ofList ['-', s.letter, '/'] ++ s.long

def takesValue : Switch → Bool
  | help => false
  | debug => false
  | _ => true

def ofLetter? (c : Char) : Option Switch := all.find? fun s => s.letter == c

/-- The switch with exactly this word. -/
def ofWord? (w : List Char) : Option Switch := all.find? fun s => s.word == w

/-- The switches whose word begins so. -/
def beginningWith (w : List Char) : List Switch := all.filter fun s => w.isPrefixOf s.word

end Switch

/-- What a switch is given. Two dashes attached to it are dropped, and nothing is left. -/
inductive Given (α : Type) where
  | value (a : α)
  | dropped
  deriving Repr, DecidableEq

structure Settings where
  programName : Option String
  clockSpeed : Option (Given Int)
  frontEnd : Option (Given FrontEnd)
  scale : Option (Given Int)
  muted : Option (Given Bool)
  layout : Given String
  logLevel : Given Level
  traced : Bool
  deriving Repr, DecidableEq

/-- The settings of an empty command line. -/
def Settings.standard : Settings where
  programName := none
  clockSpeed := none
  frontEnd := none
  scale := none
  muted := none
  layout := .value KeyLayout.standard
  logLevel := .value .warning
  traced := false

end Chip8.CommandLine
