import Chip8.Proofs.Loop.Announcement
import Chip8.Proofs.Machine.Paint

/-!
# One iteration of the main loop

An iteration that is completed asks the controls, reads the clock, runs one tick with the
keys as they are then, tells the buzzer once, and draws the screen if the tick or something
before it marked the screen. One that ends the loop asks the controls and does nothing more.
-/
namespace Chip8

namespace Session
variable {α : Type} {s after : Session} {m : Machine}

theorem still_withControls {x : DeviceM Controls α} (hx : Controls.Listens x) :
    Keeps (Still m) (fun _ => False) (withControls x) := by
  intro s hs
  rw [left_withControls]
  exact ⟨(hx ⟨s.host, s.controls⟩ trivial).1, hs⟩

theorem eq_of_compute {result : Except Number.Error α} {a : α}
    (h : compute result s = .ok a after) : result = .ok a ∧ s = after := by
  cases result with
  | error e => cases h
  | ok b =>
      cases h
      exact ⟨rfl, rfl⟩

theorem eq_of_readClock {now : Number} (h : withHost Host.readClock s = .ok now after) :
    ∃ rest, s.host.readings = now :: rest ∧
      after = { s with host := { s.host with readings := rest, now } } := by
  unfold withHost at h
  rw [Host.readClock_apply] at h
  cases hreadings : s.host.readings with
  | nil =>
      rw [hreadings] at h
      cases h
  | cons t rest =>
      rw [hreadings] at h
      cases h
      exact ⟨rest, rfl, rfl⟩

theorem eq_of_withMachine {x : Machine → Outcome} (h : withMachine x s = .ok () after) :
    (x s.machine).stop = none ∧
      after = { s with
        machine := (x s.machine).machine
        remarks := s.remarks ++ (x s.machine).remarks } := by
  unfold withMachine at h
  dsimp only at h
  cases hstop : (x s.machine).stop with
  | some stop =>
      rw [hstop] at h
      cases h
  | none =>
      rw [hstop] at h
      cases h
      exact ⟨rfl, rfl⟩

end Session

namespace Loop
open Session
variable {stream : RandomBytes} {p p' : Pace} {s after : Session}

theorem eq_of_runTick {lastTime now : Number}
    (h : runTick stream lastTime now s = .ok () after) :
    ∃ elapsed, now.sub lastTime = .ok elapsed ∧
      let o := s.machine.tick stream elapsed (s.controls.states s.host)
      o.stop = none ∧
        after = { s with machine := o.machine, remarks := s.remarks ++ o.remarks } := by
  obtain ⟨elapsed, s', hcompute, htick⟩ := bind_eq_ok_iff.mp h
  obtain ⟨helapsed, rfl⟩ := eq_of_compute hcompute
  exact ⟨elapsed, helapsed, eq_of_withMachine htick⟩

theorem passBuzzer_ok (h : passBuzzer s = .ok () after) :
    after.machine = s.machine ∧
      Announces s [.buzzer s.machine.sounding s.machine.statusLine] after := by
  have h : announce (.buzzer s.machine.sounding s.machine.statusLine) s = .ok () after := h
  exact ⟨(blind_announce _).machine h, .one h⟩

/-- The frame that is drawn, if any. -/
def frames (m : Machine) : List HostCall :=
  if m.screen.changed then [.draw m.screen.pixels.toArray] else []

theorem repaint_ok {drew : Bool} (h : repaint s = .ok drew after) :
    drew = s.machine.screen.changed ∧ after.machine = (taken s).machine ∧
      Announces s (frames s.machine) after := by
  rw [repaint_apply] at h
  unfold frames
  cases hchanged : s.machine.screen.changed with
  | false =>
      rw [hchanged] at h
      cases h
      exact ⟨rfl, rfl, rfl⟩
  | true =>
      rw [hchanged] at h
      obtain ⟨_, told, htold, h⟩ := bind_eq_ok_iff.mp h
      obtain ⟨_, drawn, hheed, h⟩ := bind_eq_ok_iff.mp h
      cases h
      have hdraw := announce_of_ok htold hheed
      exact ⟨rfl, (blind_announce _).machine hdraw, (Announces.one hdraw).of_machine⟩

theorem report_ok {count : Nat} (h : report count s = .ok () after) :
    after.machine = { s.machine with ops := 0 } ∧
      Announces s [.title (reportTitle count s.machine.ops)] after := by
  have h : (do
      withHost (Host.perform (.title (reportTitle count s.machine.ops)))
      withDisplay (Display.setTitle (reportTitle count s.machine.ops))
      modify fun s => { s with machine := { s.machine with ops := 0 } } : SessionM Unit) s =
        .ok () after := h
  obtain ⟨_, told, htold, h⟩ := bind_eq_ok_iff.mp h
  obtain ⟨_, titled, hheed, hreset⟩ := bind_eq_ok_iff.mp h
  cases hreset
  have htitle : announce (.title _) s = .ok () titled := announce_of_ok htold hheed
  have hannounces : Announces s _ titled := .one htitle
  refine ⟨?_, hannounces⟩
  show { titled.machine with ops := 0 } = _
  rw [(blind_announce _).machine htitle]

/-- The end of the work: a report, if one is due. -/
def conclude (p : Pace) (now : Number) (count : Nat) : SessionM Pace := do
  if Number.le (.float p.reportAt) now then
    let reportAt ← compute (now.addFloat reportInterval)
    report count
    pure ⟨now, reportAt, 0⟩
  else pure ⟨now, p.reportAt, count⟩

theorem work_eq (stream : RandomBytes) (p : Pace) :
    work stream p = (do
      let now ← withHost Host.readClock
      runTick stream p.lastTime now
      passBuzzer
      let drew ← repaint
      conclude p now (if drew then p.frames + 1 else p.frames)) := rfl

/-- What a title reports: the frames and the instructions counted since the last report. -/
structure Figures where
  frames : Nat
  ops : Nat
  deriving Repr, DecidableEq

def Figures.title (f : Figures) : HostCall := .title (reportTitle f.frames f.ops)

/-- What was counted is reported if a report is due, and the counting begins anew; otherwise it
is kept. -/
inductive Concludes (p : Pace) (now : Number) (count ops : Nat) :
    Option Figures → Pace → Nat → Prop
  | kept : Number.le (.float p.reportAt) now = false →
      Concludes p now count ops none ⟨now, p.reportAt, count⟩ ops
  | reported {reportAt : Binary64} : Number.le (.float p.reportAt) now = true →
      now.addFloat reportInterval = .ok reportAt →
      Concludes p now count ops (some ⟨count, ops⟩) ⟨now, reportAt, 0⟩ 0

theorem conclude_ok {now : Number} {count : Nat} (h : conclude p now count s = .ok p' after) :
    ∃ report, Concludes p now count s.machine.ops report p' after.machine.ops ∧
      after.machine = { s.machine with ops := after.machine.ops } ∧
      Announces s (report.map Figures.title).toList after := by
  unfold conclude at h
  cases hdue : Number.le (.float p.reportAt) now with
  | true =>
      rw [hdue, if_pos rfl] at h
      obtain ⟨reportAt, _, hcompute, h⟩ := bind_eq_ok_iff.mp h
      obtain ⟨hreportAt, rfl⟩ := eq_of_compute hcompute
      obtain ⟨_, reported, hreport, hdone⟩ := bind_eq_ok_iff.mp h
      cases hdone
      obtain ⟨hmachine, htitle⟩ := report_ok hreport
      have hops : after.machine.ops = 0 := by rw [hmachine]
      refine ⟨some ⟨count, s.machine.ops⟩, ?_, by rw [hmachine], htitle⟩
      rw [hops]
      exact .reported hdue hreportAt
  | false =>
      rw [hdue, if_neg Bool.false_ne_true] at h
      cases h
      exact ⟨none, .kept hdue, rfl, rfl⟩

theorem Concludes.lastTime {now : Number} {count counted kept : Nat} {report : Option Figures}
    (h : Concludes p now count counted report p' kept) : p'.lastTime = now := by
  cases h <;> rfl

theorem wait_ok {tickTime : Number} (h : wait tickTime s = .ok () after) :
    after.machine = s.machine ∧ after.host.announced = s.host.announced ∧
      after.host.readings <:+ s.host.readings := by
  obtain ⟨due, _, hcompute, h⟩ := bind_eq_ok_iff.mp h
  obtain ⟨-, rfl⟩ := eq_of_compute hcompute
  obtain ⟨now, ready, hclock, h⟩ := bind_eq_ok_iff.mp h
  obtain ⟨rest, hreadings, rfl⟩ := eq_of_readClock hclock
  obtain ⟨delay, _, hcompute', h⟩ := bind_eq_ok_iff.mp h
  obtain ⟨-, rfl⟩ := eq_of_compute hcompute'
  have hsuffix : rest <:+ s.host.readings := hreadings ▸ List.suffix_cons now rest
  split at h
  · obtain rfl := eq_of_perform h
    refine ⟨rfl, ?_, hsuffix⟩
    exact (Host.announced_tell _ _).trans (List.append_nil _)
  · cases h
    exact ⟨rfl, rfl, hsuffix⟩

theorem poll_ok {quit : Bool} (h : withControls Controls.poll s = .ok quit after) :
    after.machine = s.machine ∧ after.host.transcript = s.host.transcript ∧
      after.host.readings <:+ s.host.readings := by
  obtain ⟨⟨-, hreadings, made, hmade, htranscript⟩, hstill⟩ :=
    still_of_ok (still_withControls Controls.listens_poll) h
  obtain rfl : made = [] := List.eq_nil_iff_forall_not_mem.mpr hmade
  rw [Host.tell_nil] at htranscript
  exact ⟨hstill, htranscript, hreadings⟩

/-- The screen of a machine has been looked at, and its count of instructions may have been
taken. -/
def Shown (m after : Machine) : Prop :=
  after = { m with screen := { m.screen with changed := false }, ops := after.ops }

structure Round where
  /-- The controls have been asked. -/
  polled : Session
  /-- The clock has been read too. -/
  ready : Session
  now : Number
  elapsed : Number
  announced : List HostCall

namespace Round

/-- The keys as the controls report them in this iteration. -/
def keys (r : Round) : Array Bool := r.ready.controls.states r.ready.host

def outcome (stream : RandomBytes) (r : Round) : Outcome :=
  r.ready.machine.tick stream r.elapsed r.keys

def ticked (stream : RandomBytes) (r : Round) : Session :=
  { r.ready with
    machine := (r.outcome stream).machine
    remarks := r.ready.remarks ++ (r.outcome stream).remarks }

def trail (stream : RandomBytes) (r : Round) : List TakenStep :=
  r.ready.machine.tickTrail stream r.elapsed r.keys

/-- How a completed iteration leads from one session to another. -/
structure Leads (stream : RandomBytes) (p : Pace) (s : Session) (r : Round) (after : Session) :
    Prop where
  polls : withControls Controls.poll s = .ok false r.polled
  reads : withHost Host.readClock r.polled = .ok r.now r.ready
  elapses : r.now.sub p.lastTime = .ok r.elapsed
  begins : r.ready.machine = s.machine
  returns : (r.outcome stream).stop = none
  machine : Shown (r.outcome stream).machine after.machine
  announces : after.host.announced = s.host.announced ++ r.announced
  /-- The buzzer is set once, then the frame is drawn if it is to be, then a title may be set. -/
  announced : ∃ titles, (titles = [] ∨ ∃ text, titles = [.title text]) ∧
    r.announced =
      .buzzer (r.outcome stream).machine.sounding (r.outcome stream).machine.statusLine ::
        (frames (r.outcome stream).machine ++ titles)
  /-- After the tick the speaker and the display do what is announced to them, and at the end the
  loop waits. -/
  heeds : ∃ heeded, Announces (r.ticked stream) r.announced heeded ∧
    wait r.now heeded = .ok () after
  spends : after.host.readings.length < s.host.readings.length

end Round

theorem turn_of_going (h : turn stream p s = .ok (some p') after) :
    ∃ polled, withControls Controls.poll s = .ok false polled ∧
      work stream p polled = .ok p' after := by
  obtain ⟨quit, polled, hpoll, h⟩ := bind_eq_ok_iff.mp h
  cases quit with
  | true =>
      obtain ⟨_, _, _, h⟩ := bind_eq_ok_iff.mp h
      cases h
  | false =>
      obtain ⟨p'', worked, hwork, h⟩ := bind_eq_ok_iff.mp h
      cases h
      exact ⟨polled, hpoll, hwork⟩

theorem isAnnouncement_of_round (m : Machine) {titles : List HostCall}
    (htitles : titles = [] ∨ ∃ text, titles = [.title text]) :
    ∀ c ∈ HostCall.buzzer m.sounding m.statusLine :: (frames m ++ titles),
      c.isAnnouncement = true := by
  unfold frames
  rcases htitles with rfl | ⟨text, rfl⟩ <;> cases m.screen.changed <;>
    simp [HostCall.isAnnouncement]

/-- The frames counted once a machine has been looked at. -/
def framesWith (p : Pace) (m : Machine) : Nat :=
  if m.screen.changed then p.frames + 1 else p.frames

/-- What a completed iteration does, with the report that it makes if one is due. -/
theorem exists_report (h : iterate stream p s = .ok (some p') after) :
    ∃ (r : Round) (report : Option Figures), r.Leads stream p s after ∧
      Concludes p r.now (framesWith p (r.outcome stream).machine) (r.outcome stream).machine.ops
        report p' after.machine.ops ∧
      r.announced =
        .buzzer (r.outcome stream).machine.sounding (r.outcome stream).machine.statusLine ::
          (frames (r.outcome stream).machine ++ (report.map Figures.title).toList) := by
  obtain ⟨next, turned, hturn, h⟩ := bind_eq_ok_iff.mp h
  cases next with
  | none => cases h
  | some p'' =>
      obtain ⟨_, waited, hwait, h⟩ := bind_eq_ok_iff.mp h
      cases h
      obtain ⟨polled, hpoll, hwork⟩ := turn_of_going hturn
      rw [work_eq] at hwork
      obtain ⟨now, ready, hclock, hwork⟩ := bind_eq_ok_iff.mp hwork
      obtain ⟨_, ticked, htick, hwork⟩ := bind_eq_ok_iff.mp hwork
      obtain ⟨_, sounded, hsound, hwork⟩ := bind_eq_ok_iff.mp hwork
      obtain ⟨drew, painted, hpaint, hconclude⟩ := bind_eq_ok_iff.mp hwork
      obtain ⟨hstill, htranscript, hpolled⟩ := poll_ok hpoll
      obtain ⟨rest, hreadings, hready⟩ := eq_of_readClock hclock
      obtain ⟨elapsed, helapsed, hreturns, rfl⟩ := eq_of_runTick htick
      obtain ⟨hsounded, hbuzzer⟩ := passBuzzer_ok hsound
      obtain ⟨hdrew, hpainted, hframe⟩ := repaint_ok hpaint
      obtain ⟨report, hreport, hconcluded, htitle⟩ := conclude_ok hconclude
      obtain ⟨hwaited, hquiet, hafterWait⟩ := wait_ok hwait
      rw [hreport.lastTime] at hwait
      let o := ready.machine.tick stream elapsed (ready.controls.states ready.host)
      let titles := (report.map Figures.title).toList
      let r : Round := ⟨polled, ready, now, elapsed,
        .buzzer o.machine.sounding o.machine.statusLine :: (frames o.machine ++ titles)⟩
      have htitles : titles = [] ∨ ∃ text, titles = [.title text] := by
        cases report with
        | none => exact .inl rfl
        | some figures => exact .inr ⟨_, rfl⟩
      rw [hsounded] at hframe
      have hheeds : Announces (r.ticked stream) r.announced turned :=
        hbuzzer.append (hframe.append htitle)
      obtain ⟨hannounced, hafterAll⟩ := hheeds.announced (isAnnouncement_of_round _ htitles)
      refine ⟨r, report, ⟨hpoll, hclock, helapsed, ?_, hreturns, ?_, ?_, ⟨titles, htitles, rfl⟩,
        ⟨turned, hheeds, hwait⟩, ?_⟩, ?_, rfl⟩
      · show ready.machine = s.machine
        rw [hready, ← hstill]
      · -- After its tick the machine is only looked at, and its count may be reset.
        show Shown o.machine after.machine
        unfold Shown
        rw [hwaited, hconcluded, hpainted]
        unfold taken
        rw [hsounded]
        rfl
      · have hbefore : ready.host.announced = s.host.announced := by
          rw [hready]
          unfold Host.announced
          rw [← Host.calls_of_transcript htranscript]
          rfl
        rw [hquiet, hannounced, ← hbefore]
        rfl
      · have hread : (r.ticked stream).host.readings = rest := by
          show ready.host.readings = rest
          rw [hready]
        have hspent := (hafterWait.trans hafterAll).length_le
        have hpolled := hpolled.length_le
        rw [hreadings, List.length_cons] at hpolled
        rw [hread] at hspent
        omega
      · have hops : painted.machine.ops = o.machine.ops := by
          have hsame : sounded.machine = o.machine := hsounded
          rw [hpainted, ← hsame]
          rfl
        rw [hdrew, hsounded, hops, ← hwaited] at hreport
        exact hreport

theorem exists_round (h : iterate stream p s = .ok (some p') after) :
    ∃ r : Round, r.Leads stream p s after :=
  let ⟨r, _, hleads, _⟩ := exists_report h
  ⟨r, hleads⟩

/-- An iteration in which the user wants to end does nothing else. -/
theorem iterate_of_quit {polled : Session} (stream : RandomBytes) (p : Pace)
    (h : withControls Controls.poll s = .ok true polled) :
    iterate stream p s =
      .ok none { polled with remarks := polled.remarks.push .quitRequested } := by
  have hturn : turn stream p s =
      .ok none { polled with remarks := polled.remarks.push .quitRequested } := bind_of_ok h
  exact bind_of_ok hturn

/-- An iteration that ends the loop is one in which the user wants to end. -/
theorem quit_of_iterate (h : iterate stream p s = .ok none after) :
    ∃ polled, withControls Controls.poll s = .ok true polled ∧
      after = { polled with remarks := polled.remarks.push .quitRequested } := by
  obtain ⟨next, turned, hturn, h⟩ := bind_eq_ok_iff.mp h
  cases next with
  | some p' =>
      obtain ⟨_, _, -, hdone⟩ := bind_eq_ok_iff.mp h
      cases hdone
  | none =>
      cases h
      obtain ⟨quit, polled, hpoll, h⟩ := bind_eq_ok_iff.mp hturn
      cases quit with
      | true =>
          cases h
          exact ⟨polled, hpoll, rfl⟩
      | false =>
          obtain ⟨_, _, -, hdone⟩ := bind_eq_ok_iff.mp h
          cases hdone

end Loop
end Chip8
