import Chip8.Proofs.Loop.Course
import Chip8.Proofs.Text.Marks

/-!
# What the titles account for

Frames and instructions are counted until a report is due, and then the title tells both
counts and the counting begins anew. So over a run what the titles tell, together with what
is still counted, is all that was drawn and all that was executed. A report is made in the
first iteration that begins a second or more after the one before it, by the clock as it
reads; how the clock moves in between does not matter.
-/
namespace Chip8

def HostCall.title? : HostCall → Option String
  | .title text => some text
  | _ => none

namespace Loop
open Session

structure Entry where
  round : Round
  report : Option Figures

namespace Entry

structure Leads (stream : RandomBytes) (p : Pace) (s : Session) (e : Entry) (p' : Pace)
    (after : Session) : Prop where
  round : e.round.Leads stream p s after
  concludes : Concludes p e.round.now (framesWith p (e.round.outcome stream).machine)
    (e.round.outcome stream).machine.ops e.report p' after.machine.ops
  announced : e.round.announced =
    .buzzer (e.round.outcome stream).machine.sounding
        (e.round.outcome stream).machine.statusLine ::
      (frames (e.round.outcome stream).machine ++ (e.report.map Figures.title).toList)

end Entry

inductive Chronicle (stream : RandomBytes) (maxTicks : Option Int) (s₀ : Session) :
    List Entry → Pace → Session → Prop
  | begun {p : Pace} {s : Session} : Loop.start s₀ = .ok p s →
      Chronicle stream maxTicks s₀ [] p s
  | next {entries : List Entry} {e : Entry} {p p' : Pace} {s after : Session} :
      Chronicle stream maxTicks s₀ entries p s → GoesOn maxTicks entries.length →
      iterate stream p s = .ok (some p') after → e.Leads stream p s p' after →
      Chronicle stream maxTicks s₀ (entries ++ [e]) p' after

def announcedIn (entries : List Entry) : List HostCall := entries.flatMap (·.round.announced)

def executedIn (stream : RandomBytes) (entries : List Entry) : Nat :=
  (entries.map fun e => (e.round.trail stream).length).sum

def reportsIn (entries : List Entry) : List Figures := entries.filterMap Entry.report

/-- When the last report was made, or the run began. -/
def lastReportAt (first : Number) (entries : List Entry) : Number :=
  ((entries.filter (·.report.isSome)).getLast?.map (·.round.now)).getD first

/-- The accounts of some iterations: nothing is lost and nothing is counted twice. -/
structure Balanced (stream : RandomBytes) (s₀ : Session) (first : Number) (entries : List Entry)
    (p : Pace) (s : Session) : Prop where
  announced : s.host.announced = s₀.host.announced ++ announcedIn entries
  titles : (announcedIn entries).filterMap HostCall.title? =
    (reportsIn entries).map fun f => reportTitle f.frames f.ops
  ops : ((reportsIn entries).map Figures.ops).sum + s.machine.ops =
    s₀.machine.ops + executedIn stream entries
  frames : ((reportsIn entries).map Figures.frames).sum + p.frames =
    ((announcedIn entries).filterMap HostCall.frame?).length
  /-- Every report was due a second after the one before it. -/
  due : ∀ earlier e later, entries = earlier ++ e :: later → e.report.isSome →
    ∃ due, (lastReportAt first earlier).addFloat reportInterval = .ok due ∧
      Number.le (.float due) e.round.now = true
  upcoming : (lastReportAt first entries).addFloat reportInterval = .ok p.reportAt

variable {stream : RandomBytes} {maxTicks : Option Int} {s₀ s after : Session} {p p' : Pace}
  {first : Number} {entries : List Entry} {e : Entry}

section Append

theorem announcedIn_append :
    announcedIn (entries ++ [e]) = announcedIn entries ++ e.round.announced := by
  simp [announcedIn]

theorem executedIn_append : executedIn stream (entries ++ [e]) =
    executedIn stream entries + (e.round.trail stream).length := by
  simp [executedIn]

theorem reportsIn_append :
    reportsIn (entries ++ [e]) = reportsIn entries ++ e.report.toList := by
  cases hreport : e.report <;> simp [reportsIn, hreport]

theorem lastReportAt_append :
    lastReportAt first (entries ++ [e]) =
      if e.report.isSome then e.round.now else lastReportAt first entries := by
  cases hreport : e.report <;> simp [lastReportAt, hreport]

end Append

theorem Entry.Leads.titles (h : e.Leads stream p s p' after) :
    e.round.announced.filterMap HostCall.title? =
      e.report.toList.map fun f => reportTitle f.frames f.ops := by
  have hframes (m : Machine) : (frames m).filterMap HostCall.title? = [] := by
    unfold frames
    split <;> rfl
  rw [h.announced, List.filterMap_cons_none rfl, List.filterMap_append, hframes]
  cases e.report <;> rfl

/-- An iteration draws as many frames as it adds to the count. -/
theorem Entry.Leads.frames (h : e.Leads stream p s p' after) :
    framesWith p (e.round.outcome stream).machine =
      p.frames + (e.round.announced.filterMap HostCall.frame?).length := by
  have htitles : (e.report.map Figures.title).toList.filterMap HostCall.frame? = [] := by
    cases e.report <;> rfl
  rw [h.announced, List.filterMap_cons_none rfl, List.filterMap_append, htitles]
  unfold framesWith Loop.frames
  cases (e.round.outcome stream).machine.screen.changed <;> rfl

/-- An iteration counts the instructions of its tick. -/
theorem Entry.Leads.ops (h : e.Leads stream p s p' after) :
    (e.round.outcome stream).machine.ops = s.machine.ops + (e.round.trail stream).length := by
  rw [← h.round.begins]
  exact Machine.ops_tick h.round.returns

theorem balanced_of_start {rest : List Number} (hstart : start s₀ = .ok p s)
    (hreadings : s₀.host.readings = first :: rest) : Balanced stream s₀ first [] p s := by
  obtain ⟨first', rest', hreadings', hreportAt, hframes, hmachine, hannounced⟩ := start_ok hstart
  rw [hreadings] at hreadings'
  cases hreadings'
  refine ⟨?_, rfl, ?_, ?_, ?_, hreportAt⟩
  · rw [hannounced]
    exact (List.append_nil _).symm
  · rw [hmachine]
    exact Nat.zero_add _
  · rw [hframes]
    rfl
  · intro earlier e later hentries
    simp at hentries

section Concludes
variable {now : Number} {count counted kept : Nat} {report : Option Figures}

theorem Concludes.ops (h : Concludes p now count counted report p' kept) :
    (report.toList.map Figures.ops).sum + kept = counted := by
  cases h <;> simp

theorem Concludes.frames (h : Concludes p now count counted report p' kept) :
    (report.toList.map Figures.frames).sum + p'.frames = count := by
  cases h <;> simp

theorem Concludes.due (h : Concludes p now count counted report p' kept)
    (hreport : report.isSome) : Number.le (.float p.reportAt) now = true := by
  cases h with
  | kept => cases hreport
  | reported hdue => exact hdue

theorem Concludes.upcoming (h : Concludes p now count counted report p' kept) {last : Number}
    (hlast : last.addFloat reportInterval = .ok p.reportAt) :
    (if report.isSome then now else last).addFloat reportInterval = .ok p'.reportAt := by
  cases h with
  | kept => exact hlast
  | reported _ hreportAt => exact hreportAt

end Concludes

/-- One more iteration leaves the accounts balanced, whether or not it makes a report. -/
theorem Balanced.append (h : Balanced stream s₀ first entries p s)
    (hleads : e.Leads stream p s p' after) :
    Balanced stream s₀ first (entries ++ [e]) p' after := by
  have hconcludes := hleads.concludes
  refine ⟨?_, ?_, ?_, ?_, ?_, ?_⟩
  · rw [announcedIn_append, hleads.round.announces, h.announced, List.append_assoc]
  · rw [announcedIn_append, reportsIn_append, List.filterMap_append, List.map_append, h.titles,
      hleads.titles]
  · rw [reportsIn_append, executedIn_append, List.map_append, List.sum_append]
    have hops := hleads.ops
    have hreported := hconcludes.ops
    have hbefore := h.ops
    omega
  · rw [reportsIn_append, announcedIn_append, List.map_append, List.sum_append,
      List.filterMap_append, List.length_append]
    have hframes := hleads.frames
    have hreported := hconcludes.frames
    have hbefore := h.frames
    omega
  · intro earlier e' later hentries hreport
    rcases List.eq_nil_or_concat later with rfl | ⟨later, last, rfl⟩
    · obtain ⟨rfl, hsame⟩ := List.append_inj' hentries rfl
      cases hsame
      exact ⟨_, h.upcoming, hconcludes.due hreport⟩
    · rw [List.concat_eq_append, ← List.cons_append, ← List.append_assoc] at hentries
      exact h.due earlier e' later (List.append_inj' hentries rfl).1 hreport
  · rw [lastReportAt_append]
    exact hconcludes.upcoming h.upcoming

theorem Chronicle.balanced (h : Chronicle stream maxTicks s₀ entries p s) :
    ∃ first rest, s₀.host.readings = first :: rest ∧ Balanced stream s₀ first entries p s := by
  induction h with
  | begun hstart =>
      obtain ⟨first, rest, hreadings, -⟩ := start_ok hstart
      exact ⟨first, rest, hreadings, balanced_of_start hstart hreadings⟩
  | next _ _ _ hleads ih =>
      obtain ⟨first, rest, hreadings, hbalanced⟩ := ih
      exact ⟨first, rest, hreadings, hbalanced.append hleads⟩

theorem Completed.exists_chronicle {k : Nat} (h : Completed stream maxTicks s₀ k p s) :
    ∃ entries, entries.length = k ∧ Chronicle stream maxTicks s₀ entries p s := by
  induction h with
  | begun hstart => exact ⟨[], rfl, .begun hstart⟩
  | next _ hgoes hiterate ih =>
      obtain ⟨entries, rfl, hchronicle⟩ := ih
      obtain ⟨r, report, hround, hconcludes, hannounced⟩ := exists_report hiterate
      exact ⟨entries ++ [⟨r, report⟩], by simp,
        hchronicle.next hgoes hiterate ⟨hround, hconcludes, hannounced⟩⟩

/-- A run that returns ends as it was after the last completed iteration. -/
theorem exists_completed_of_run {last : Session} (h : run stream maxTicks s₀ = .ok () last) :
    ∃ k p s, Completed stream maxTicks s₀ k p s ∧ last.machine = s.machine ∧
      last.host.transcript = s.host.transcript := by
  have hends := ends_run stream maxTicks s₀
  rw [h] at hends
  cases hends with
  | limit hcompleted _ => exact ⟨_, _, _, hcompleted, rfl, rfl⟩
  | quit hcompleted _ hiterate =>
      obtain ⟨polled, hpoll, rfl⟩ := quit_of_iterate hiterate
      obtain ⟨hmachine, htranscript, -⟩ := poll_ok hpoll
      exact ⟨_, _, _, hcompleted, hmachine, htranscript⟩

/-- The counts can be read off a title. -/
theorem Figures.eq_of_title {f f' : Figures}
    (h : reportTitle f.frames f.ops = reportTitle f'.frames f'.ops) : f = f' := by
  have htext := congrArg String.toList h
  unfold reportTitle at htext
  simp only [String.toList_append, List.append_assoc] at htext
  have hnumbers := List.append_cancel_left (List.append_cancel_left htext)
  have hblank : ' '.isDigit = false := by decide
  obtain ⟨hframes, hrest⟩ := Text.decimals_append_inj hblank hnumbers
  obtain ⟨hops, -⟩ :=
    Text.decimals_append_inj hblank ((List.append_right_inj "FPS, ".toList).mp hrest)
  cases f
  cases f'
  cases hframes
  cases hops
  rfl

/-- In every run what the titles tell, with what is still counted, is what was drawn and executed.
Each title is set in an iteration that begins a second or more after the one that set the title
before it, or after the run began. The counts can be read off the titles, and a run that
returns ends as it was after the last completed iteration. -/
theorem titles_account_for_run (stream : RandomBytes) (maxTicks : Option Int) (s₀ : Session) :
    (∀ k p s, Completed stream maxTicks s₀ k p s →
      ∃ first rest entries, s₀.host.readings = first :: rest ∧ entries.length = k ∧
        Chronicle stream maxTicks s₀ entries p s ∧ Balanced stream s₀ first entries p s) ∧
    (∀ f f' : Figures, reportTitle f.frames f.ops = reportTitle f'.frames f'.ops → f = f') ∧
    ∀ last, run stream maxTicks s₀ = .ok () last →
      ∃ k p s, Completed stream maxTicks s₀ k p s ∧ last.machine = s.machine ∧
        last.host.transcript = s.host.transcript := by
  refine ⟨fun k p s hcompleted => ?_, fun _ _ => Figures.eq_of_title,
    fun last => exists_completed_of_run⟩
  obtain ⟨entries, hlength, hchronicle⟩ := hcompleted.exists_chronicle
  obtain ⟨first, rest, hreadings, hbalanced⟩ := hchronicle.balanced
  exact ⟨first, rest, entries, hreadings, hlength, hchronicle, hbalanced⟩

/-- Two seconds after the beginning, one frame and two instructions are reported. -/
theorem late_iteration_is_reported :
    let s₀ : Session :=
      { Session.begin { Host.quiet with readings := [.int 0, .int 2, .int 2] }
          (Machine.new ⟨.int 1, .zero⟩ false) #[] with
        controls := .rehearsed
        display := { Display.null with width := screenWidth, height := screenHeight } }
    ∃ p s last first entries, Completed (fun _ => 0) (some 1) s₀ 1 p s ∧
      Chronicle (fun _ => 0) (some 1) s₀ entries p s ∧
      Balanced (fun _ => 0) s₀ first entries p s ∧
      s.host.announced.filterMap HostCall.title? = [reportTitle 1 2] ∧
      run (fun _ => 0) (some 1) s₀ = .ok () last ∧ reportsIn entries = [⟨1, 2⟩] := by
  intro s₀
  obtain ⟨haccounts, hread, hreturns⟩ := titles_account_for_run (fun _ => 0) (some 1) s₀
  let s := left start s₀
  let p : Pace := ⟨.int 0, .finite 1, 0⟩
  let after := left (iterate (fun _ => 0) p) s
  have hstart : Completed (fun _ => 0) (some 1) s₀ 0 p s :=
    .begun (eq_ok_of_value? (by decide +kernel))
  have hiterate : iterate (fun _ => 0) p s = .ok (some ⟨.int 2, .finite 3, 0⟩) after :=
    eq_ok_of_value? (by decide +kernel)
  have hcompleted := hstart.next (by intro limit h; cases h; decide) hiterate
  have hrun : failure? (run (fun _ => 0) (some 1)) s₀ = none := by decide +kernel
  have htitles : after.host.announced.filterMap HostCall.title? = [reportTitle 1 2] := by
    decide +kernel
  obtain ⟨first, rest, entries, -, -, hchronicle, hbalanced⟩ := haccounts 1 _ after hcompleted
  refine ⟨_, after, _, first, entries, hcompleted, hchronicle, hbalanced, htitles,
    eq_ok_of_failure? hrun, ?_⟩
  have htold := hbalanced.titles
  rw [hbalanced.announced, List.filterMap_append, htold] at htitles
  obtain ⟨f, hreports, hf⟩ := List.map_eq_singleton_iff.mp htitles
  rw [hreports, hread f ⟨1, 2⟩ hf]

end Loop
end Chip8
