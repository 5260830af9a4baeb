import Chip8.Device.Controls
import Chip8.Device.Display
import Chip8.Device.Speaker
import Chip8.Machine.Step

/-!
# Sessions

A session is a machine with its devices and its host. Until a device has been
made ready, a null device stands in its place. What was said is kept beside the
machine. An activity that fails keeps what it did before it failed.
-/
namespace Chip8

structure Session where
  host : Host
  machine : Machine
  remarks : Array Remark
  display : Display
  controls : Controls
  speaker : Speaker

abbrev SessionM := EStateM Failure Session

namespace Session

/-- A session without devices. -/
def begin (host : Host) (machine : Machine) (remarks : Array Remark) : Session :=
  ⟨host, machine, remarks, .null, .idle, .null⟩

/-- An activity on the host alone. -/
def withHost {α : Type} (x : HostM α) : SessionM α := fun s =>
  match x s.host with
  | .ok a host => .ok a { s with host }
  | .error e host => .error e { s with host }

def withDisplay {α : Type} (x : DeviceM Display α) : SessionM α := fun s =>
  match x ⟨s.host, s.display⟩ with
  | .ok a ⟨host, display⟩ => .ok a { s with host, display }
  | .error e ⟨host, display⟩ => .error e { s with host, display }

def withControls {α : Type} (x : DeviceM Controls α) : SessionM α := fun s =>
  match x ⟨s.host, s.controls⟩ with
  | .ok a ⟨host, controls⟩ => .ok a { s with host, controls }
  | .error e ⟨host, controls⟩ => .error e { s with host, controls }

def withSpeaker {α : Type} (x : DeviceM Speaker α) : SessionM α := fun s =>
  match x ⟨s.host, s.speaker⟩ with
  | .ok a ⟨host, speaker⟩ => .ok a { s with host, speaker }
  | .error e ⟨host, speaker⟩ => .error e { s with host, speaker }

/-- An activity of the machine. What it says is kept even if it stops. -/
def withMachine (x : Machine → Outcome) : SessionM Unit := fun s =>
  let o := x s.machine
  let s := { s with machine := o.machine, remarks := s.remarks ++ o.remarks }
  match o.stop with
  | none => .ok () s
  | some stop => .error (.stopped stop) s

def say (r : Remark) : SessionM Unit :=
  modify fun s => { s with remarks := s.remarks.push r }

def noted (e : Event) (s : Session) : Session :=
  { s with host := { s.host with transcript := s.host.transcript.push e } }

/-- A stage, with its beginning and its end in the transcript. -/
def staged (stage : Stage) (x : SessionM Unit) : SessionM Unit := fun s =>
  match x (s.noted (.begun stage)) with
  | .ok _ s => .ok () (s.noted (.ended stage none))
  | .error e s => .error e (s.noted (.ended stage (some e)))

/-- Does something and then cleans up, whether or not it failed. Of two failures
the one of the clean-up counts. -/
def thenAlways (body cleanup : SessionM Unit) : SessionM Unit := fun s =>
  match body s with
  | .ok _ s => cleanup s
  | .error e s =>
      match cleanup s with
      | .ok _ s => .error e s
      | .error later s => .error later s

def compute {α : Type} : Except Number.Error α → SessionM α
  | .ok a => pure a
  | .error e => throw (.number e)

end Session
end Chip8
