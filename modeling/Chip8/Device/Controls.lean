import Chip8.Device.Keyboard
import Chip8.Host.Basic

/-!
# Controls

Controls tell once a turn whether the user wants to end, and which of the
sixteen keys are down. The null controls never report anything. The window
reports the keys that are held. The terminal imitates held keys from characters.
Rehearsed controls report what the host's script says.
-/
namespace Chip8

inductive Controls where
  | null (layout : KeyLayout)
  | window (layout : KeyLayout)
  | terminal (layout : KeyLayout) (keyboard : Keyboard)
  | rehearsed
  deriving DecidableEq

namespace Controls

/-- The controls that report nothing and have no keys. -/
def idle : Controls := null ⟨[]⟩

/-- Makes controls ready for a layout. A terminal reports characters, so there
the layout is folded. -/
def acquire (kind : FrontEnd) (folded : Bool) (layout : String) :
    Except KeyLayout.Error Controls :=
  match kind with
  | .null => (KeyLayout.parse folded layout).map null
  | .window => (KeyLayout.parse folded layout).map window
  | .terminal => (KeyLayout.parse true layout).map fun l => terminal l .fresh

def feed (codes : List Int) : DeviceM Controls Keyboard.Fed := do
  match ← current with
  | terminal layout keyboard =>
      let (fed, keyboard) := keyboard.feed layout codes
      adjust fun _ => terminal layout keyboard
      match fed with
      | .ok fed => pure fed
      | .error e => throw (.character e)
  | _ => pure .dead

/-- What ends the program from the window: closing it, or letting go of Escape. -/
def endsProgram : WindowEvent → Bool
  | .closed => true
  | .released code => code == 27
  | .pressed _ => false

/-- Goes on to the next turn of the host, and tells whether the user wants to end. -/
def poll : DeviceM Controls Bool := do
  let turn ← onHost Host.nextTurn
  match ← current with
  | null _ => pure false
  | rehearsed => pure turn.quit
  | window _ => pure (turn.events.any endsProgram)
  | terminal .. =>
      if !turn.typed.isEmpty then let _ ← feed turn.typed
      match ← current with
      | terminal layout keyboard =>
          let (quit, keyboard) := keyboard.poll (← get).host.now
          adjust fun _ => terminal layout keyboard
          match quit with
          | .ok quit => pure quit
          | .error e => throw (.number e)
      | _ => pure false

def states (h : Host) : Controls → Array Bool
  | null _ => Array.replicate keyCount false
  | rehearsed => h.turn.keys
  | window layout => layout.states h.turn.held
  | terminal _ keyboard => keyboard.states h.now

/-- Gives the controls back. The reader of a terminal is told to end, and not waited for. -/
def release : DeviceM Controls Unit :=
  adjust fun
    | terminal layout keyboard => terminal layout keyboard.dismiss
    | c => c

end Controls
end Chip8
