import Chip8.Proofs.Loop.Routine

/-!
# Announcements of the main loop

The loop announces whether the buzzer sounds, the frames that it draws and its titles. Each
announcement is for one device, which does its part before anything else is announced. No
device looks at the machine, so what the loop does with the machine in between makes no
difference to them.
-/
namespace Chip8

namespace Host
variable {h after : Host} {P : HostCall → Prop}

/-- What the main loop has announced: frames, titles and the buzzer. -/
def announced (h : Host) : List HostCall := h.calls.filter HostCall.isAnnouncement

theorem announced_tell (h : Host) (made : List HostCall) :
    (h.tell made).announced = h.announced ++ made.filter HostCall.isAnnouncement := by
  unfold announced
  rw [calls_tell, List.filter_append]

theorem Grew.announced_eq (hgrew : Grew P h after) (hP : ∀ c, P c → c.isAnnouncement = false) :
    after.announced = h.announced := by
  obtain ⟨-, -, made, hmade, htranscript⟩ := hgrew
  have hnone : made.filter HostCall.isAnnouncement = [] :=
    List.filter_eq_nil_iff.mpr fun c hc => by simp [hP c (hmade c hc)]
  have htold := announced_tell h made
  rw [hnone, List.append_nil] at htold
  rw [← htold]
  unfold announced
  rw [calls_of_transcript htranscript]

end Host

theorem HostCall.Serves.not_announcement {c : HostCall} (h : c.Serves) :
    c.isAnnouncement = false := by
  cases c <;> first | rfl | cases h

namespace Session
variable {α β : Type} {s after : Session} {m : Machine}

abbrev Still (m : Machine) (s : Session) : Prop := s.machine = m

theorem still_of_ok {P : HostCall → Prop} {x : SessionM α} {a : α}
    (h : Keeps (Still s.machine) P x) (hx : x s = .ok a after) :
    Host.Grew P s.host after.host ∧ after.machine = s.machine := by
  have hkept := h s rfl
  rwa [left_of_ok hx] at hkept

theorem still_withDisplay {x : DeviceM Display α} (hx : ∀ kind, Display.Works kind x) :
    Keeps (Still m) HostCall.Serves (withDisplay x) := by
  intro s hs
  rw [left_withDisplay]
  exact ⟨(hx s.display.kind ⟨s.host, s.display⟩ rfl).1, hs⟩

theorem still_withSpeaker (on : Bool) :
    Keeps (Still m) HostCall.Serves (withSpeaker (Speaker.gate on)) := by
  intro s hs
  rw [left_withSpeaker]
  exact ⟨(Speaker.works_gate (k := s.speaker.kind) on ⟨s.host, s.speaker⟩ rfl).1, hs⟩

theorem eq_of_perform {c : HostCall} (h : withHost (Host.perform c) s = .ok () after) :
    after = { s with host := s.host.tell [c] } := by
  rw [← left_of_ok h, left_withHost, Host.left_perform]

/-- The activity does not look at the machine, and leaves whatever machine there is. -/
def Blind (x : SessionM α) : Prop :=
  ∀ s a after m, x s = .ok a after → x { s with machine := m } = .ok a { after with machine := m }

theorem Blind.pure (a : α) : Blind (pure a) := by
  intro s b after m h
  cases h
  rfl

theorem Blind.bind {x : SessionM α} {f : α → SessionM β} (hx : Blind x) (hf : ∀ a, Blind (f a)) :
    Blind (x >>= f) := by
  intro s b after m h
  obtain ⟨a, between, hfirst, hsecond⟩ := bind_eq_ok_iff.mp h
  rw [bind_of_ok (hx s a between m hfirst)]
  exact hf a between b after m hsecond

theorem Blind.machine {x : SessionM α} {a : α} (hx : Blind x) (h : x s = .ok a after) :
    after.machine = s.machine := by
  have hsame : x s = .ok a { after with machine := s.machine } := hx s a after s.machine h
  rw [h, EStateM.Result.ok.injEq] at hsame
  rw [hsame.2]

/-- What is done with a part of the session other than the machine does not look at it. -/
theorem blind_of_part {σ : Type} {x : SessionM α} (run : EStateM Failure σ α)
    (part : Session → σ) (put : σ → Session → Session)
    (hx : ∀ s, x s =
      match run (part s) with
      | .ok a t => .ok a (put t s)
      | .error e t => .error e (put t s))
    (hpart : ∀ s m, part { s with machine := m } = part s)
    (hput : ∀ t s m, put t { s with machine := m } = { put t s with machine := m }) : Blind x := by
  intro s a after m h
  rw [hx] at h ⊢
  rw [hpart]
  cases hrun : run (part s) with
  | ok b t =>
      rw [hrun] at h
      cases h
      exact congrArg _ (hput t s m)
  | error e t =>
      rw [hrun] at h
      cases h

theorem blind_withHost (x : HostM α) : Blind (withHost x) := by
  refine blind_of_part x Session.host (fun host s => { s with host }) (fun s => ?_)
    (fun _ _ => rfl) fun _ _ _ => rfl
  unfold withHost
  cases x s.host <;> rfl

theorem blind_withDisplay (x : DeviceM Display α) : Blind (withDisplay x) := by
  refine blind_of_part x (fun s => ⟨s.host, s.display⟩)
    (fun d s => { s with host := d.host, display := d.device }) (fun s => ?_)
    (fun _ _ => rfl) fun _ _ _ => rfl
  unfold withDisplay
  cases x ⟨s.host, s.display⟩ <;> rfl

theorem blind_withSpeaker (x : DeviceM Speaker α) : Blind (withSpeaker x) := by
  refine blind_of_part x (fun s => ⟨s.host, s.speaker⟩)
    (fun d s => { s with host := d.host, speaker := d.device }) (fun s => ?_)
    (fun _ _ => rfl) fun _ _ _ => rfl
  unfold withSpeaker
  cases x ⟨s.host, s.speaker⟩ <;> rfl

end Session

namespace Loop
open Session
variable {s after : Session}

/-- What is done about an announcement, with the device that it is for. -/
def heed : HostCall → SessionM Unit
  | .buzzer on _ => withSpeaker (Speaker.gate on)
  | .draw pixels => withDisplay (Display.draw pixels)
  | .title text => withDisplay (Display.setTitle text)
  | _ => pure ()

def announce (c : HostCall) : SessionM Unit := do
  withHost (Host.perform c)
  heed c

theorem announce_of_ok {c : HostCall} {told : Session}
    (htold : withHost (Host.perform c) s = .ok () told) (hheed : heed c told = .ok () after) :
    announce c s = .ok () after :=
  (bind_of_ok htold).trans hheed

theorem still_heed (m : Machine) (c : HostCall) : Keeps (Still m) HostCall.Serves (heed c) := by
  unfold heed
  split
  · exact still_withSpeaker _
  · exact still_withDisplay fun _ => Display.works_draw _
  · exact still_withDisplay fun _ => Display.works_setTitle _
  · exact .pure ()

theorem blind_announce (c : HostCall) : Blind (announce c) := by
  refine .bind (blind_withHost _) fun _ => ?_
  unfold heed
  split
  · exact blind_withSpeaker _
  · exact blind_withDisplay _
  · exact blind_withDisplay _
  · exact .pure ()

theorem blind_announceAll (made : List HostCall) : Blind (made.forM announce) := by
  induction made with
  | nil => exact .pure ()
  | cons c rest ih => exact .bind (blind_announce c) fun _ => ih

/-- Announcements are made one after another, and what is to be done about each is done before
the next is made. That is all that happens, whatever becomes of the machine meanwhile. -/
def Announces (s : Session) (made : List HostCall) (after : Session) : Prop :=
  made.forM announce s = .ok () { after with machine := s.machine }

namespace Announces
variable {c : HostCall} {made made' : List HostCall} {between : Session}

theorem one (h : announce c s = .ok () after) : Announces s [c] after := by
  have hstill := (blind_announce c).machine h
  show (announce c >>= fun _ => pure ()) s = _
  rw [bind_of_ok h, ← hstill]
  rfl

/-- What the machine was is of no account. -/
theorem of_machine {m : Machine} (h : Announces { s with machine := m } made after) :
    Announces s made after := by
  have hsame := blind_announceAll made _ () _ s.machine h
  exact hsame

theorem append (h : Announces s made between) (h' : Announces between made' after) :
    Announces s (made ++ made') after := by
  have hsame := blind_announceAll made' _ () _ s.machine h'
  have happend : (made ++ made').forM announce = (do made.forM announce; made'.forM announce) :=
    List.forM_append
  unfold Announces
  rw [happend, bind_of_ok h]
  exact hsame

end Announces

theorem announced_announceAll {made : List HostCall} (hmade : ∀ c ∈ made, c.isAnnouncement = true)
    (h : made.forM announce s = .ok () after) :
    after.host.announced = s.host.announced ++ made ∧
      after.host.readings <:+ s.host.readings := by
  induction made generalizing s with
  | nil =>
      cases h
      exact ⟨(List.append_nil _).symm, List.suffix_rfl⟩
  | cons c rest ih =>
      obtain ⟨_, heeded, hannounce, hrest⟩ := bind_eq_ok_iff.mp h
      obtain ⟨_, told, htold, hheed⟩ := bind_eq_ok_iff.mp hannounce
      obtain rfl := eq_of_perform htold
      obtain ⟨hgrew, -⟩ := still_of_ok (still_heed _ c) hheed
      obtain ⟨hannounced, hreadings⟩ := ih (fun c hc => hmade c (.tail _ hc)) hrest
      refine ⟨?_, hreadings.trans hgrew.readings⟩
      rw [hannounced, hgrew.announced_eq fun _ => HostCall.Serves.not_announcement,
        Host.announced_tell, List.filter_cons_of_pos (hmade c (.head _)), List.append_assoc]
      rfl

theorem Announces.announced {made : List HostCall} (h : Announces s made after)
    (hmade : ∀ c ∈ made, c.isAnnouncement = true) :
    after.host.announced = s.host.announced ++ made ∧
      after.host.readings <:+ s.host.readings := by
  have hall := announced_announceAll hmade h
  exact hall

end Loop
end Chip8
