import Chip8.Proofs.Device.Grid
import Chip8.Proofs.Host.Activity

/-!
# What the terminal shows

A terminal display keeps the frame that it was handed last, and of the next frame it writes
the pixels that differ. Replayed on a blank pad, all its writes together show the frame that
it was handed last, however frames and titles follow each other and however the size of the
terminal changes. A frame of a wrong size is refused, and nothing comes of it.
-/
namespace Chip8

def Host.Accepts (h : Host) : Prop := ∀ c, h.refuses c = false

namespace Display
variable {x y : DeviceM Display Unit} {s : Attached Display} {device device' : Display}

theorem perform_eq (haccepts : s.host.Accepts) (c : HostCall) :
    onHost (Host.perform c) s = .ok () { s with host := s.host.tell [c] } := by
  unfold onHost
  rw [Host.perform_of_accepted (haccepts c)]

def writesIn (calls : List HostCall) : List TerminalCall :=
  calls.filterMap fun
    | .terminal (.write row column text reversed) => some (.write row column text reversed)
    | _ => none

theorem writesIn_append (made made' : List HostCall) :
    writesIn (made ++ made') = writesIn made ++ writesIn made' :=
  List.filterMap_append

/-- The calls write nothing, and leave the pad as it is. -/
def Spare (made : List HostCall) : Prop := writesIn made = [] ∧ ∀ g : Grid, g.after made = g

theorem Spare.append {made made' : List HostCall} (h : Spare made) (h' : Spare made') :
    Spare (made ++ made') := by
  refine ⟨?_, fun g => ?_⟩
  · rw [writesIn_append, h.1, h'.1, List.append_nil]
  · rw [Grid.after_append, h.2, h'.2]

/-- The activity succeeds and leaves the display as it is said, and its calls spare the pad. -/
def Spares (x : DeviceM Display Unit) (s : Attached Display) (device : Display) : Prop :=
  ∃ made host, x s = .ok () ⟨host, device⟩ ∧ host.calls = s.host.calls ++ made ∧ Spare made ∧
    host.Accepts

theorem Spares.andThen (hx : Spares x s device)
    (hy : ∀ host : Host, host.Accepts → Spares y ⟨host, device⟩ device') :
    Spares (do x; y) s device' := by
  obtain ⟨made, host, hdone, hcalls, hspare, haccepts⟩ := hx
  obtain ⟨made', host', hdone', hcalls', hspare', haccepts'⟩ := hy host haccepts
  refine ⟨made ++ made', host', ?_, ?_, hspare.append hspare', haccepts'⟩
  · rw [bind_of_ok hdone, hdone']
  · rw [hcalls', hcalls, List.append_assoc]

theorem spares_perform (haccepts : s.host.Accepts) {c : HostCall} (hc : Spare [c]) :
    Spares (onHost (Host.perform c)) s s.device :=
  ⟨[c], s.host.tell [c], perform_eq haccepts c, Host.calls_tell s.host [c], hc, haccepts⟩

theorem spares_adjust (haccepts : s.host.Accepts) (f : Display → Display) :
    Spares (adjust f) s (f s.device) :=
  ⟨[], s.host, rfl, (List.append_nil _).symm, ⟨rfl, fun _ => rfl⟩, haccepts⟩

/-- Showing the pad, once the height and width of the terminal are known. -/
def showPadAt (pad : Pad) (height width : Int) : DeviceM Display Unit := do
  if pad.redrawnAt ≠ (height, width) then
    onHost (Host.perform (.terminal .clear))
    if (← get).host.resizable then
      onHost (Host.perform (.terminal (.resize height width)))
    onHost (Host.perform (.terminal .refresh))
    adjust fun d => { d with surface := .terminal { pad with redrawnAt := (height, width) } }
  if pad.present then
    onHost (Host.perform (.terminal (.showPad (height - 1) (width - 1))))
  else throw (.padGone "refresh")

theorem showPad_eq {pad : Pad} {height width : Int} {sizes : List (Int × Int)}
    (hsurface : s.device.surface = .terminal pad)
    (hsize : Host.terminalSize s.host = .ok (height, width) { s.host with sizes }) :
    showPad s = showPadAt pad height width { s with host := { s.host with sizes } } := by
  have hsized : onHost Host.terminalSize s =
      .ok (height, width) { s with host := { s.host with sizes } } := by
    unfold onHost
    rw [hsize]
  unfold showPad
  rw [current_bind]
  simp only [hsurface]
  exact bind_of_ok hsized

/-- Whether or not the terminal is redrawn first, showing the pad writes nothing. -/
theorem showPadAt_spares {pad : Pad} (haccepts : s.host.Accepts)
    (hsurface : s.device.surface = .terminal pad) (hpresent : pad.present = true)
    (height width : Int) :
    ∃ redrawnAt, Spares (showPadAt pad height width) s
      { s.device with surface := .terminal { pad with redrawnAt } } := by
  let redrawn (d : Display) : Display :=
    { d with surface := .terminal { pad with redrawnAt := (height, width) } }
  have hshow (t : Attached Display) (ht : t.host.Accepts) :
      Spares (if pad.present = true then
          onHost (Host.perform (.terminal (.showPad (height - 1) (width - 1))))
        else throw (.padGone "refresh")) t t.device := by
    rw [if_pos hpresent]
    exact spares_perform ht ⟨rfl, fun _ => rfl⟩
  have hredraw (t : Attached Display) (ht : t.host.Accepts) :
      Spares (do
        onHost (Host.perform (.terminal .refresh))
        adjust redrawn
        if pad.present = true then
          onHost (Host.perform (.terminal (.showPad (height - 1) (width - 1))))
        else throw (.padGone "refresh")) t (redrawn t.device) :=
    (spares_perform ht ⟨rfl, fun _ => rfl⟩).andThen fun _ hhost =>
      (spares_adjust hhost redrawn).andThen fun host hhost => hshow ⟨host, redrawn t.device⟩ hhost
  unfold showPadAt
  by_cases hsame : pad.redrawnAt = (height, width)
  · refine ⟨pad.redrawnAt, ?_⟩
    rw [if_neg (fun hne => hne hsame), ← hsurface]
    exact hshow s haccepts
  · refine ⟨(height, width), ?_⟩
    rw [if_pos hsame]
    refine (spares_perform haccepts ⟨rfl, fun _ => rfl⟩).andThen fun host hhost => ?_
    show Spares (if host.resizable = true then _ else _) ⟨host, s.device⟩ (redrawn s.device)
    -- Only a terminal that can be told its size is told it.
    by_cases hresizable : host.resizable = true
    · rw [if_pos hresizable]
      exact (spares_perform hhost ⟨rfl, fun _ => rfl⟩).andThen fun host hhost =>
        hredraw ⟨host, s.device⟩ hhost
    · rw [if_neg hresizable]
      exact hredraw ⟨host, s.device⟩ hhost

theorem showPad_spares {pad : Pad} (haccepts : s.host.Accepts)
    (hsurface : s.device.surface = .terminal pad) (hpresent : pad.present = true) :
    ∃ redrawnAt, Spares showPad s
      { s.device with surface := .terminal { pad with redrawnAt } } := by
  obtain ⟨⟨height, width⟩, sizes, hsize⟩ := s.host.terminalSize_ok
  let sized : Attached Display := { s with host := { s.host with sizes } }
  obtain ⟨redrawnAt, hspares⟩ :=
    showPadAt_spares (s := sized) haccepts hsurface hpresent height width
  refine ⟨redrawnAt, ?_⟩
  unfold Spares at hspares ⊢
  rw [showPad_eq hsurface hsize]
  exact hspares

/-! ## What is shown -/

/-- A terminal display whose pad shows the frame that the display remembers. -/
structure Showing (width height scale : Nat) (frame : Array Bool) (s : Attached Display) :
    Prop where
  surface : ∃ redrawnAt, s.device.surface = .terminal ⟨scale, true, frame, redrawnAt⟩
  columns : s.device.width = width
  rows : s.device.height = height
  size : frame.size = width * height
  shows : Shows width scale (litIn frame) (Grid.blank.after s.host.calls)
  accepts : s.host.Accepts

variable {width height scale : Nat} {frame pixels : Array Bool} {after : Attached Display}

theorem entries_ok {entrySize n : Nat} {count : Int} (h : Storage.entries entrySize count = .ok n) :
    n = count.toNat := by
  unfold Storage.entries at h
  split at h
  · cases h
  · split at h
    · cases h
    · cases h
      rfl

theorem lineWidth_ok {n : Nat} {room : Int} (h : Storage.lineWidth room = .ok n) :
    n = room.toNat := by
  unfold Storage.lineWidth at h
  split at h
  · cases h
  · exact entries_ok h

theorem within_ok {check : Except Storage.Error Nat} {n : Nat} (h : within check s = .ok n after) :
    check = .ok n ∧ after = s := by
  cases check with
  | ok m =>
      cases h
      exact ⟨rfl, rfl⟩
  | error e => cases h

theorem showing_of_setResolution {pad : Pad} (haccepts : s.host.Accepts)
    (hsurface : s.device.surface = .terminal pad) (hscale : pad.scale = scale)
    (h : setResolution width height s = .ok () after) :
    after.host.calls = s.host.calls ++ [.terminal (.newPad (height + 2) (width * scale + 1))] ∧
      Showing width height scale (Array.replicate (width * height) false) after := by
  unfold setResolution at h
  rw [current_bind] at h
  simp only [hsurface] at h
  rw [bind_of_ok (perform_eq haccepts _), hscale] at h
  obtain ⟨_, adjusted, hadjust, h⟩ := bind_eq_ok_iff.mp h
  cases hadjust
  obtain ⟨size, _, hwithin, h⟩ := bind_eq_ok_iff.mp h
  obtain ⟨hsize, rfl⟩ := within_ok hwithin
  obtain ⟨_, blank, hblank, h⟩ := bind_eq_ok_iff.mp h
  cases hblank
  cases h
  have hcount : size = width * height := by
    have hcast := entries_ok hsize
    omega
  subst hcount
  refine ⟨Host.calls_tell _ _, ⟨_, rfl⟩, rfl, rfl, Array.size_replicate, ?_, haccepts⟩
  show Shows width scale _ (Grid.blank.after (s.host.tell [_]).calls)
  rw [Host.calls_tell, Grid.after_append]
  exact shows_blank.congr fun k => (litIn_replicate (width * height) k).symm

theorem writesIn_differences (count : Nat) (before now : Nat → Bool) :
    writesIn ((differences width scale count before now).map HostCall.terminal) =
      differences width scale count before now := by
  unfold writesIn differences
  rw [List.filterMap_map, List.filterMap_map]
  exact congrFun List.filterMap_eq_map _

/-- A frame of a wrong size is refused before anything is done. -/
theorem Showing.draw_of_wrong_size (h : Showing width height scale frame s)
    (hsize : pixels.size ≠ width * height) :
    Display.draw pixels s = .error (.frameSize width height) s := by
  have hwrong : (pixels.size : Int) ≠ s.device.width * s.device.height := by
    rw [h.columns, h.rows]
    exact_mod_cast hsize
  unfold Display.draw
  rw [current_bind, if_pos hwrong, h.columns, h.rows]
  rfl

theorem draw_eq {pad : Pad} (hsurface : s.device.surface = .terminal pad)
    (hpresent : pad.present = true)
    (hsize : (pixels.size : Int) = s.device.width * s.device.height) :
    draw pixels s = (do
      adjust fun d => { d with framesDrawn := d.framesDrawn + 1 }
      onHost (Host.performAll ((repaints s.device.width pad.scale pad.shown.toList
        pixels.toList).map HostCall.terminal))
      adjust fun d => { d with surface := .terminal { pad with shown := pixels } }
      showPad : DeviceM Display Unit) s := by
  unfold draw
  rw [current_bind, if_neg (fun hne => hne hsize)]
  simp only [hsurface, hpresent, Bool.not_true, Bool.and_false, Bool.false_eq_true, if_false]

/-- A frame of the right size is drawn by the writes of the pixels that differ. -/
theorem Showing.draw (h : Showing width height scale frame s)
    (hsize : pixels.size = width * height) :
    ∃ after made, Display.draw pixels s = .ok () after ∧
      after.host.calls = s.host.calls ++ made ∧
      writesIn made = differences width scale (width * height) (litIn frame) (litIn pixels) ∧
      Showing width height scale pixels after := by
  obtain ⟨⟨redrawnAt, hsurface⟩, hcolumns, hrows, hframe, hshows, haccepts⟩ := h
  let writes := differences width scale (width * height) (litIn frame) (litIn pixels)
  let counted : Display := { s.device with framesDrawn := s.device.framesDrawn + 1 }
  let drawn : Attached Display :=
    ⟨s.host.tell (writes.map .terminal),
      { counted with surface := .terminal ⟨scale, true, pixels, redrawnAt⟩ }⟩
  have hdrawn : Display.draw pixels s = showPad drawn := by
    rw [draw_eq hsurface rfl (by rw [hsize, hcolumns, hrows, Int.natCast_mul]), hcolumns,
      repaints_eq hframe hsize, adjust_bind]
    exact (bind_of_ok (onHost_performAll (s := ⟨s.host, counted⟩) fun c _ => haccepts c)).trans
      (adjust_bind _ showPad _)
  obtain ⟨redrawnAt', made, host, hdone, hcalls, ⟨hwrites, hgrid⟩, haccepts'⟩ :=
    showPad_spares (s := drawn) haccepts rfl rfl
  rw [Host.calls_tell] at hcalls
  refine ⟨_, writes.map .terminal ++ made, hdrawn.trans hdone, ?_, ?_,
    ⟨redrawnAt', rfl⟩, hcolumns, hrows, hsize, ?_, haccepts'⟩
  · rw [hcalls, List.append_assoc]
  · rw [writesIn_append, writesIn_differences, hwrites, List.append_nil]
  · show Shows width scale _ (Grid.blank.after host.calls)
    rw [hcalls, Grid.after_append, Grid.after_append, hgrid]
    refine (hshows.differences (Nat.le_refl _)).congr fun k => ?_
    by_cases hk : k < width * height
    · rw [if_pos hk]
    · rw [if_neg hk, litIn_of_le (by omega), litIn_of_le (by omega)]

/-- A title that leaves room is filled up to a line and written above the picture. -/
theorem left_setTitle {pad : Pad} (haccepts : s.host.Accepts)
    (hsurface : s.device.surface = .terminal pad) (text : String) :
    left (setTitle text) s = s ∨
      ∃ line : String, (line.length : Int) = s.device.width * pad.scale ∧
        left (setTitle text) s =
          { s with host := s.host.tell [.terminal (.write 0 0 line true)] } := by
  unfold setTitle
  rw [left_current_bind]
  simp only [hsurface]
  split
  · rename_i hroom
    have hroom : (text.length : Int) < s.device.width * pad.scale := by simp_all
    cases hwidth : Storage.lineWidth (s.device.width * pad.scale) with
    | error e => exact .inl (left_of_error (e := .storage e) (bind_of_error rfl))
    | ok columns =>
        have hcolumns := lineWidth_ok hwidth
        refine .inr
          ⟨String.ofList (text.toList ++ List.replicate (columns - text.length) ' '), ?_, ?_⟩
        · rw [String.length_ofList, List.length_append, List.length_replicate,
            String.length_toList]
          omega
        · have hwithin : within (.ok columns) s = .ok columns s := rfl
          exact (left_bind_of_ok hwithin).trans (left_of_ok (perform_eq haccepts _))
  · exact .inl rfl

theorem Showing.title (h : Showing width height scale frame s) (text : String) :
    ∃ made, (left (setTitle text) s).host.calls = s.host.calls ++ made ∧
      (writesIn made = [] ∨
        ∃ line, line.length = width * scale ∧ writesIn made = [.write 0 0 line true]) ∧
      Showing width height scale frame (left (setTitle text) s) := by
  obtain ⟨⟨redrawnAt, hsurface⟩, hcolumns, hrows, hframe, hshows, haccepts⟩ := id h
  rcases left_setTitle haccepts hsurface text with hsame | ⟨line, hline, htold⟩
  · rw [hsame]
    exact ⟨[], (List.append_nil _).symm, .inl rfl, h⟩
  · rw [htold]
    refine ⟨_, Host.calls_tell _ _, .inr ⟨line, ?_, rfl⟩, ⟨redrawnAt, hsurface⟩, hcolumns, hrows,
      hframe, ?_, haccepts⟩
    · have hcast : (line.length : Int) = width * scale := hcolumns ▸ hline
      exact_mod_cast hcast
    · show Shows width scale _ (Grid.blank.after (s.host.tell [_]).calls)
      rw [Host.calls_tell, Grid.after_append]
      exact hshows.title 0 line true

inductive Request where
  | draw (pixels : Array Bool)
  | title (text : String)

namespace Request

def perform : Request → DeviceM Display Unit
  | draw pixels => Display.draw pixels
  | title text => setTitle text

/-- The last frame after a request. A frame of another size does not count. -/
def nextFrame (count : Nat) (shown : Array Bool) : Request → Array Bool
  | draw pixels => if pixels.size = count then pixels else shown
  | title _ => shown

end Request

def afterAll (requests : List Request) (s : Attached Display) : Attached Display :=
  requests.foldl (fun s request => left request.perform s) s

/-- The last frame of the right size, or a blank one before there is any. -/
def lastFrame (count : Nat) (requests : List Request) : Array Bool :=
  requests.foldl (Request.nextFrame count) (Array.replicate count false)

/-- A request makes writes inside the pad only, and leaves the pad showing the last frame. -/
theorem Showing.perform (h : Showing width height scale frame s) (request : Request) :
    ∃ made, (left request.perform s).host.calls = s.host.calls ++ made ∧
      (∀ c ∈ writesIn made, Inside width height scale c) ∧
      Showing width height scale (request.nextFrame (width * height) frame)
        (left request.perform s) := by
  cases request with
  | draw pixels =>
      simp only [Request.perform, Request.nextFrame]
      by_cases hsize : pixels.size = width * height
      · obtain ⟨after, made, hdone, hcalls, hwrites, hshowing⟩ := h.draw hsize
        rw [left_of_ok hdone, if_pos hsize]
        refine ⟨made, hcalls, fun c hc => ?_, hshowing⟩
        rw [hwrites] at hc
        exact inside_of_mem_differences (Nat.le_refl _) hc
      · rw [left_of_error (h.draw_of_wrong_size hsize), if_neg hsize]
        exact ⟨[], (List.append_nil _).symm, fun c hc => absurd hc List.not_mem_nil, h⟩
  | title text =>
      obtain ⟨made, hcalls, hwrites, hshowing⟩ := h.title text
      refine ⟨made, hcalls, fun c hc => ?_, hshowing⟩
      rcases hwrites with hnone | ⟨line, hline, hone⟩
      · rw [hnone] at hc
        exact absurd hc List.not_mem_nil
      · rw [hone, List.mem_singleton] at hc
        subst hc
        simp only [Inside, hline]
        omega

theorem Showing.afterAll (h : Showing width height scale frame s) (requests : List Request) :
    ∃ made, (afterAll requests s).host.calls = s.host.calls ++ made ∧
      (∀ c ∈ writesIn made, Inside width height scale c) ∧
      Showing width height scale (requests.foldl (Request.nextFrame (width * height)) frame)
        (afterAll requests s) := by
  induction requests generalizing s frame with
  | nil => exact ⟨[], (List.append_nil _).symm, fun c hc => absurd hc List.not_mem_nil, h⟩
  | cons request rest ih =>
      obtain ⟨made, hcalls, hinside, hshowing⟩ := h.perform request
      obtain ⟨made', hcalls', hinside', hshowing'⟩ := ih hshowing
      refine ⟨made ++ made', ?_, ?_, hshowing'⟩
      · rw [← List.append_assoc, ← hcalls]
        exact hcalls'
      · rw [writesIn_append]
        exact fun c hc => (List.mem_append.mp hc).elim (hinside c) (hinside' c)

/-- From the time a terminal has its resolution its pad shows the last frame. -/
theorem terminal_shows_last_frame (width height scale : Nat) {s₀ s₁ : Attached Display} {pad : Pad}
    (haccepts : ∀ c, s₀.host.refuses c = false) (hsurface : s₀.device.surface = .terminal pad)
    (hscale : pad.scale = scale) (hset : setResolution width height s₀ = .ok () s₁)
    (requests : List Request) :
    let s := afterAll requests s₁
    let frame := lastFrame (width * height) requests
    let grid := Grid.blank.after s.host.calls
    s₁.host.calls = s₀.host.calls ++ [.terminal (.newPad (height + 2) (width * scale + 1))] ∧
      (∀ x y i, x < width → y < height → i < scale →
        grid (y + 1) (x * scale + i) = ⟨' ', litIn frame (y * width + x)⟩) ∧
      (∀ row column, height < row ∨ 1 ≤ row ∧ width * scale ≤ column →
        grid row column = ⟨' ', false⟩) ∧
      (∃ made, s.host.calls = s₁.host.calls ++ made ∧
        ∀ c ∈ writesIn made, Inside width height scale c) ∧
      (∀ text, ∃ made, (left (setTitle text) s).host.calls = s.host.calls ++ made ∧
        (writesIn made = [] ∨
          ∃ line, line.length = width * scale ∧ writesIn made = [.write 0 0 line true])) ∧
      (∀ pixels, pixels.size = width * height →
        ∃ after made, draw pixels s = .ok () after ∧ after.host.calls = s.host.calls ++ made ∧
          writesIn made =
            ((List.range (width * height)).filter fun k => litIn frame k != litIn pixels k).map
              fun k => .write ((k / width : Nat) + 1) ((k % width * scale : Nat)) (cells scale)
                (litIn pixels k)) ∧
      ∀ pixels, pixels.size ≠ width * height →
        draw pixels s = .error (.frameSize width height) s := by
  intro s frame grid
  obtain ⟨hpad, hblank⟩ := showing_of_setResolution haccepts hsurface hscale hset
  obtain ⟨made, hcalls, hinside, hshowing⟩ := hblank.afterAll requests
  refine ⟨hpad, fun x y i hx hy hi => hshowing.shows.pixel hx hi,
    fun row column hout => hshowing.shows.outside hshowing.size hout, ⟨made, hcalls, hinside⟩,
    fun text => ?_, fun pixels hsize => ?_, fun pixels hsize => ?_⟩
  · obtain ⟨made, hcalls, hwrites, -⟩ := hshowing.title text
    exact ⟨made, hcalls, hwrites⟩
  · obtain ⟨after, made, hdone, hcalls, hwrites, -⟩ := hshowing.draw hsize
    exact ⟨after, made, hdone, hcalls, hwrites⟩
  · exact hshowing.draw_of_wrong_size hsize

/-- Of two pixels the first is lit; to light the second it alone is written. -/
theorem second_pixel_is_written :
    let s₀ : Attached Display := ⟨.quiet, fresh (.int 2) (.terminal ⟨2, true, #[], (-1, -1)⟩)⟩
    let s := afterAll [.draw #[true, false], .title "ab"] (left (setResolution 2 1) s₀)
    let grid := Grid.blank.after s.host.calls
    (∀ c, s₀.host.refuses c = false) ∧ grid 1 1 = ⟨' ', true⟩ ∧ grid 1 2 = ⟨' ', false⟩ ∧
      (∃ after made, draw #[true, true] s = .ok () after ∧
        after.host.calls = s.host.calls ++ made ∧ writesIn made = [.write 1 2 "  " true]) ∧
      draw #[true] s = .error (.frameSize 2 1) s := by
  intro s₀ s grid
  have haccepts : ∀ c, s₀.host.refuses c = false := fun _ => rfl
  have hset : setResolution 2 1 s₀ = .ok () (left (setResolution 2 1) s₀) :=
    eq_ok_of_failure? (by decide +kernel)
  obtain ⟨-, hpixels, -, -, -, hdraws, hwrong⟩ := terminal_shows_last_frame 2 1 2
    haccepts rfl rfl hset [.draw #[true, false], .title "ab"]
  refine ⟨haccepts, hpixels 0 0 1 (by decide) (by decide) (by decide),
    hpixels 1 0 0 (by decide) (by decide) (by decide), ?_, hwrong #[true] (by decide)⟩
  obtain ⟨after, made, hdone, hcalls, hwrites⟩ := hdraws #[true, true] rfl
  exact ⟨after, made, hdone, hcalls, hwrites.trans (by decide)⟩

end Display
end Chip8
