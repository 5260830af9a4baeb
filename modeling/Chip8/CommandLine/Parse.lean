import Chip8.CommandLine.Argument
import Chip8.Text.Quoted

/-!
# Reading a command line

Arguments are carried out from left to right. The first plain one names the
program file. A switch that takes a value has it attached or takes the plain
argument after it; switches without a value can be written together behind one
dash. What is left over is complained about last, after a missing file name.
-/
namespace Chip8.CommandLine

inductive UsageError where
  | ambiguous (a : Ambiguity)
  | noValue (s : Switch)
  | valueIgnored (s : Switch) (value : String)
  | notInteger (s : Switch) (value : String)
  | notAChoice (s : Switch) (value : String) (choices : List String)
  | noProgram
  | leftOver (texts : List String)
  deriving Repr, DecidableEq

/-- How reading ends early. -/
inductive Exit where
  /-- Help was asked for. -/
  | help
  | usage (error : UsageError)
  deriving Repr, DecidableEq

def UsageError.message : UsageError → String
  | ambiguous a =>
      "ambiguous option: " ++ a.text ++ " could match " ++
        String.intercalate ", " (a.switches.map Switch.long)
  | noValue s => "argument " ++ s.label ++ ": expected one argument"
  | valueIgnored s value =>
      "argument " ++ s.label ++ ": ignored explicit argument " ++ Text.quoteInMessage value
  | notInteger s value =>
      "argument " ++ s.label ++ ": invalid int value: " ++ Text.quoteInMessage value
  | notAChoice s value choices =>
      "argument " ++ s.label ++ ": invalid choice: " ++ value ++ " (choose from " ++
        String.intercalate ", " choices ++ ")"
  | noProgram => "the following arguments are required: filename"
  | leftOver texts => "unrecognized arguments: " ++ String.intercalate " " texts

/-- What is left out at the end of a message: blanks and separators of text. -/
def isTrailing (c : Char) : Bool := Text.isBlank c || (28 ≤ c.toNat && c.toNat ≤ 31)

/-- The last line of a text, not counting blank space at its end. -/
def lastLine (text : String) : String :=
  let reversed := text.toList.reverse.dropWhile isTrailing
  String.ofList (reversed.takeWhile (· != '\n')).reverse

/-- The line with which a refused command line is answered. -/
def UsageError.line (e : UsageError) : String :=
  lastLine ("monochip.py: error: " ++ e.message)

def readInteger (s : Switch) (value : String) : Except Exit Int :=
  match Text.readInt? value.toList with
  | some n => pure n
  | none => throw (.usage (.notInteger s value))

/-- The log levels by name, least first. -/
def levels : List (String × Level) :=
  [("debug", .debug), ("info", .info), ("warning", .warning), ("error", .error)]

def frontEnds : List (String × FrontEnd) :=
  [FrontEnd.window, .terminal, .null].map fun f => (f.name, f)

/-- One of several named values. -/
def readChoice {α : Type} (s : Switch) (choices : List (String × α)) (value : String) :
    Except Exit α :=
  match choices.lookup value with
  | some a => pure a
  | none =>
      throw (.usage (.notAChoice s (Text.quoteInMessage value)
        (choices.map fun choice => Text.quoteInMessage choice.1)))

/-- Whether to mute, as 0 or 1. -/
def readMute (value : String) : Except Exit Bool := do
  let n ← readInteger .mute value
  if n = 0 then pure false
  else if n = 1 then pure true
  else throw (.usage (.notAChoice .mute (toString n) ["0", "1"]))

/-- Carries out a switch without a value. -/
def applyBare (settings : Settings) : Switch → Except Exit Settings
  | .help => throw .help
  | .debug => pure { settings with traced := true }
  | _ => pure settings

/-- Reads a value, unless it is dropped. -/
def readGiven {α : Type} (read : String → Except Exit α) (value : String) :
    Except Exit (Given α) :=
  if value = "--" then pure .dropped else (read value).map Given.value

/-- Carries out a switch with its value. -/
def applyValue (settings : Settings) (s : Switch) (value : String) : Except Exit Settings := do
  match s with
  | .clockSpeed => pure { settings with clockSpeed := some (← readGiven (readInteger s) value) }
  | .renderer =>
      pure { settings with frontEnd := some (← readGiven (readChoice s frontEnds) value) }
  | .scale => pure { settings with scale := some (← readGiven (readInteger s) value) }
  | .mute => pure { settings with muted := some (← readGiven readMute value) }
  | .keymap => pure { settings with layout := ← readGiven pure value }
  | .logLevel => pure { settings with logLevel := ← readGiven (readChoice s levels) value }
  | .help | .debug => pure settings

/-- Switches written together: some without a value, and then perhaps one that takes one. -/
structure Cluster where
  bare : List Switch
  last : Option (Switch × Option String)
  deriving Repr, DecidableEq

/-- Takes apart the letters behind a switch. Only the last switch may take a
value, which is what follows its letter. -/
def clusterOf (s : Switch) (byLetter : Bool) : List Char → Except Exit Cluster
  | [] =>
      if s.takesValue then pure ⟨[], some (s, some "")⟩
      else throw (.usage (.valueIgnored s ""))
  | c :: rest =>
      if s.takesValue then pure ⟨[], some (s, some (String.ofList (c :: rest)))⟩
      else if !byLetter then throw (.usage (.valueIgnored s (String.ofList (c :: rest))))
      else
        match Switch.ofLetter? c with
        | none => throw (.usage (.valueIgnored s (String.ofList (c :: rest))))
        | some next =>
            if rest = [] then
              if next.takesValue then pure ⟨[s], some (next, none)⟩ else pure ⟨[s, next], none⟩
            else do
              let cluster ← clusterOf next true rest
              pure { cluster with bare := s :: cluster.bare }

/-- The switches that one argument stands for. -/
def cluster (s : Switch) (byLetter : Bool) : Option (List Char) → Except Exit Cluster
  | some attached => clusterOf s byLetter attached
  | none => if s.takesValue then pure ⟨[], some (s, none)⟩ else pure ⟨[s], none⟩

/-- What was read so far, and what is left over. -/
structure Progress where
  settings : Settings
  leftOver : Array String
  deriving Repr, DecidableEq

def Progress.leave (p : Progress) (a : Argument) : Progress :=
  { p with leftOver := p.leftOver ++ a.leftOver }

def Progress.name (p : Progress) (text : String) : Progress :=
  { p with settings := { p.settings with programName := some text } }

/-- Carries out a cluster whose value, if it needs one, is given. -/
def applyCluster (settings : Settings) (c : Cluster) (value : Option (Switch × String)) :
    Except Exit Settings := do
  let settings ← c.bare.foldlM applyBare settings
  match value with
  | some (s, value) => applyValue settings s value
  | none => pure settings

/-- Carries out arguments from left to right. -/
def readFrom (p : Progress) : List Argument → Except Exit Progress
  | [] => pure p
  | .plain text :: .separator :: rest =>
      if p.settings.programName.isNone then readFrom (p.name text) rest
      else readFrom ((p.leave (.plain text)).leave .separator) rest
  | .plain text :: rest =>
      if p.settings.programName.isNone then readFrom (p.name text) rest
      else readFrom (p.leave (.plain text)) rest
  | .separator :: .plain text :: rest =>
      if p.settings.programName.isNone then readFrom (p.name text) rest
      else readFrom ((p.leave .separator).leave (.plain text)) rest
  | .separator :: rest => readFrom (p.leave .separator) rest
  | .unknown text :: rest => readFrom (p.leave (.unknown text)) rest
  | .switch s byLetter attached :: rest => do
      let c ← cluster s byLetter attached
      match c.last, rest with
      | none, rest =>
          readFrom { p with settings := ← applyCluster p.settings c none } rest
      | some (s, some value), rest =>
          readFrom { p with settings := ← applyCluster p.settings c (some (s, value)) } rest
      | some (s, none), .plain value :: rest =>
          readFrom { p with settings := ← applyCluster p.settings c (some (s, value)) } rest
      | some (s, none), _ => throw (.usage (.noValue s))

def parse (texts : List String) : Except Exit Settings :=
  match Argument.ofTexts texts with
  | .error a => throw (.usage (.ambiguous a))
  | .ok arguments => do
      let p ← readFrom ⟨.standard, #[]⟩ arguments
      if p.settings.programName.isNone then throw (.usage .noProgram)
      else if p.leftOver ≠ #[] then throw (.usage (.leftOver p.leftOver.toList))
      else pure p.settings

end Chip8.CommandLine
