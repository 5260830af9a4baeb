import Chip8.Host.Basic

/-!
# Speakers

A speaker follows the buzzer: it is told at every turn whether the buzzer
sounds, and acts only when that changes. The window loops a square wave until it
is stopped; the terminal beeps once each time the buzzer comes on.
-/
namespace Chip8

structure Speaker where
  kind : FrontEnd
  /-- What the speaker was told last. -/
  on : Bool
  deriving Repr, DecidableEq

namespace Speaker

def null : Speaker := ⟨.null, false⟩

/-- The pitch of the buzzer, in cycles a second. -/
def pitch : Nat := 440

/-- Samples in half a cycle of the buzzer. -/
def halfPeriod : Nat := MixerCall.playbackRate / pitch / 2

/-- One cycle of a square wave, the high half first. -/
def squareWave : List UInt8 := List.replicate halfPeriod 0xFF ++ List.replicate halfPeriod 0x00

def volume : Binary64 := Binary64.round (1 / 10)

def acquire (kind : FrontEnd) : HostM Speaker :=
  match kind with
  | .window => do
      Host.performAll [
        .mixer .configure, .mixer .acquire, .mixer (.waveform squareWave), .mixer (.volume volume)]
      pure ⟨.window, false⟩
  | kind => pure ⟨kind, false⟩

/-- The calls that follow a change of the buzzer. -/
def edgeCalls (kind : FrontEnd) (before after : Bool) : List HostCall :=
  match kind, before, after with
  | .window, false, true => [.mixer .play]
  | .window, true, false => [.mixer .stop]
  | .terminal, false, true => [.terminal .beep]
  | _, _, _ => []

/-- Tells the speaker whether the buzzer sounds. -/
def gate (on : Bool) : DeviceM Speaker Unit := do
  let s ← current
  onHost (Host.performAll (edgeCalls s.kind s.on on))
  adjust fun s => { s with on }

def release : DeviceM Speaker Unit := do
  let s ← current
  match s.kind with
  | .window => onHost (Host.performAll [.mixer .stop, .mixer .release])
  | _ => pure ()

end Speaker
end Chip8
