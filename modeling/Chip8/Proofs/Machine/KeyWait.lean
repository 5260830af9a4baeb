import Chip8.Proofs.Machine.Timers
import Chip8.Proofs.Pacing.Drift

/-!
# Waiting for a key

The wait for a key steps back onto itself while every key is up, so a machine that has come
to it takes the same step again and again. Each of these steps returns and changes nothing
that a program works with, and none of them sets a timer. Any number of ticks can pass in
this way, and all that shows is that the timers run down.

The first step under a key that is down stores the lowest such key and goes on.
-/
namespace Chip8

namespace Keypad
variable {keys : Array Bool}

theorem eq_released_iff (h : keys.size = keyCount) :
    (⟨⟨keys, h⟩⟩ : Keypad) = released ↔ true ∉ keys := by
  rw [released, Keypad.mk.injEq, ← Vector.toArray_inj, Vector.toArray_replicate,
    Array.eq_replicate_iff]
  constructor
  · rintro ⟨-, hup⟩ hdown
    exact Bool.noConfusion (hup true hdown)
  · intro hup
    refine ⟨h, ?_⟩
    rintro (_ | _) hkey
    · rfl
    · exact (hup hkey).elim

theorem firstDown?_eq_some_iff (h : keys.size = 16) {key : Fin 16} :
    firstDown? ⟨⟨keys, h⟩⟩ = some key ↔ keys[key] = true ∧ ∀ j < key, keys[j] = false := by
  unfold firstDown?
  rw [List.find?_eq_some_iff_getElem]
  simp only [List.getElem_finRange, Fin.cast_mk, Bool.not_eq_true']
  constructor
  · rintro ⟨hdown, i, hi, rfl, hbefore⟩
    exact ⟨hdown, fun j hj => hbefore j.val hj⟩
  · rintro ⟨hdown, hbefore⟩
    have hkey : key.val < (List.finRange keyCount).length := by
      rw [List.length_finRange]
      exact key.isLt
    exact ⟨hdown, key.val, hkey, rfl, fun j hj => hbefore ⟨j, hj.trans key.isLt⟩ hj⟩

end Keypad

namespace Machine
variable {m after : Machine} {stream : RandomBytes} {x : Fin 16} {k : Timer}

theorem Rests.agrees (h : Rests m after) : Agrees m after := by
  unfold Rests at h
  rw [h]
  exact ⟨rfl, rfl, rfl, rfl, rfl, rfl⟩

theorem Agrees.countDown (m : Machine) : Agrees m m.countDown := ⟨rfl, rfl, rfl, rfl, rfl, rfl⟩

/-- The machine past a wait, with the key that was down in a register. -/
def answered (m : Machine) (x key : Fin 16) : Machine :=
  { m.setReg x (UInt8.ofNat key) with pc := m.pc + 2 }

theorem Agrees.answered (h : Agrees m after) (x key : Fin 16) :
    Agrees (m.answered x key) (after.answered x key) where
  registers := congrArg (fun v => v.set x (UInt8.ofNat key) x.isLt) h.registers
  index := h.index
  pc := congrArg (fun pc => pc + 2) h.pc
  memory := h.memory
  stack := h.stack
  pixels := h.pixels

structure Awaits (m : Machine) (x : Fin 16) : Prop where
  word : m.memory.word? m.pc = some (byteWord 0xF x 0x0A)

theorem Awaits.congr (h : m.Awaits x) (hagree : Agrees m after) : after.Awaits x where
  word := by rw [hagree.memory, hagree.pc, h.word]

theorem Awaits.not_sets (h : m.Awaits x) : ¬ (⟨stream, m⟩ : TakenStep).Sets k := by
  rintro ⟨word, y, hword, hset⟩
  obtain rfl := Option.some.inj (h.word.symm.trans hword)
  have hwait := (Instruction.StandsFor.waitForKey x).unique hset
  cases k <;> cases hwait

theorem Awaits.step (h : m.Awaits x) (hup : m.keypad = Keypad.released) (stream : RandomBytes) :
    (m.step stream).stop = none ∧ Agrees m (m.step stream).machine := by
  let ready := m.fetched (byteWord 0xF x 0x0A)
  have hnone : ready.keypad.firstDown? = none := Keypad.firstDown?_eq_none_iff.mpr hup
  have hback : ready.waitForKey x = { ready with pc := ready.pc - 2 } := by
    unfold Machine.waitForKey
    rw [hnone]
  rw [step_of_execute h.word (.waitForKey x) (congrArg (EStateM.Result.ok ()) hback)]
  exact ⟨rfl, rfl, rfl, Int.add_sub_cancel m.pc 2, rfl, rfl, rfl⟩

/-- The step under a key that is down goes on with the lowest such key. -/
theorem Awaits.step_of_down {key : Fin keyCount} (h : m.Awaits x)
    (hdown : m.keypad.firstDown? = some key) (stream : RandomBytes) :
    (m.step stream).stop = none ∧
      Agrees (m.answered x key) (m.step stream).machine := by
  let ready := m.fetched (byteWord 0xF x 0x0A)
  have hkey : ready.keypad.firstDown? = some key := hdown
  have hstored : ready.waitForKey x = ready.setReg x (UInt8.ofNat key) := by
    unfold Machine.waitForKey
    rw [hkey]
  rw [step_of_execute h.word (.waitForKey x) (congrArg (EStateM.Result.ok ()) hstored)]
  exact ⟨rfl, rfl, rfl, rfl, rfl, rfl, rfl⟩

/-- With every key up, or for no steps at all, a wait goes on. -/
theorem Awaits.run {n : Nat} (h : m.Awaits x) (hup : m.keypad = Keypad.released ∨ n = 0)
    (stream : RandomBytes) :
    (steps stream n m).stop = none ∧ Agrees m (steps stream n m).machine ∧
      ∀ t ∈ trail stream n m, t.before.Awaits x := by
  induction n generalizing m with
  | zero => exact ⟨rfl, .refl m, List.forall_mem_nil _⟩
  | succ n ih =>
      have hup := hup.resolve_right (Nat.succ_ne_zero n)
      obtain ⟨hstop, hagree⟩ := h.step hup stream
      have hkeypad := (step_keeps stream m).1.trans hup
      obtain ⟨hstops, hagrees, hlater⟩ := ih (h.congr hagree) (.inl hkeypad)
      rw [steps_succ, Outcome.stop_andThen hstop, Outcome.machine_andThen hstop]
      unfold trail
      rw [hstop]
      exact ⟨hstops, hagree.trans hagrees, List.forall_mem_cons.mpr ⟨h, hlater⟩⟩

end Machine

/-- What one tick is given: the bytes it may draw, the time that has passed and the keys. -/
structure Frame where
  stream : RandomBytes
  elapsed : Number
  keys : Array Bool

namespace Frame

def tick (f : Frame) : Operation := .tick f.stream f.elapsed f.keys

/-- With this many instructions due, the tick cannot end a wait: every key is up, or no
instruction is there to see one. -/
def Idle (f : Frame) (count : Int) : Prop := f.keys.size = 16 ∧ (true ∉ f.keys ∨ count = 0)

end Frame

namespace Machine
variable {m : Machine} {x : Fin 16} {f : Frame} {count : Int} {later : Pacer}

theorem pace_frame (hkeys : f.keys.size = 16)
    (hdue : Pacer.instructionsFor f.elapsed m.pacer = .ok count later) :
    pace f.elapsed f.keys m =
      .ok count.toNat { m with keypad := ⟨⟨f.keys, hkeys⟩⟩, pacer := later } :=
  pace_eq_ok_iff.mpr ⟨_, count, later, dif_pos hkeys, hdue, rfl, rfl⟩

theorem Awaits.tick (h : m.Awaits x)
    (hdue : Pacer.instructionsFor f.elapsed m.pacer = .ok count later) (hidle : f.Idle count) :
    (f.tick.perform m).stop = none ∧ Agrees m (f.tick.perform m).machine ∧
      (f.tick.perform m).machine.pacer = later ∧
      ∀ t ∈ f.tick.trail m, t.before.Awaits x := by
  obtain ⟨hkeys, hup⟩ := hidle
  have hpaced := pace_frame hkeys hdue
  have hready := (rests_of_paced hpaced).agrees
  rw [← Keypad.eq_released_iff hkeys] at hup
  obtain ⟨hstop, hagree, hawaits⟩ :=
    (h.congr hready).run (hup.imp_right (congrArg Int.toNat)) f.stream
  have htick : f.tick.perform m = _ := tick_of_paced hpaced
  have htrail : f.tick.trail m = _ := tickTrail_of_paced hpaced
  have hpacer : (f.tick.perform m).machine.pacer = later := pacer_tick hpaced
  rw [htrail]
  refine ⟨?_, ?_, hpacer, hawaits⟩
  · rw [htick, Outcome.stop_andThen hstop]
    rfl
  · rw [htick, Outcome.machine_andThen hstop]
    exact (hready.trans hagree).trans (Agrees.countDown _)

/-- While no tick can end it, a wait goes on over all of them. -/
theorem Awaits.performAll {frames : List Frame} {counts : List Int} {last : Pacer}
    (h : m.Awaits x)
    (hpaced : Pacer.instructionsForEach (frames.map Frame.elapsed) m.pacer = .ok counts last)
    (hidle : List.Forall₂ Frame.Idle frames counts) :
    let ticks := frames.map Frame.tick
    m.AllReturn ticks ∧ Agrees m (m.performAll ticks) ∧ (m.performAll ticks).pacer = last ∧
      ∀ t ∈ m.trailAll ticks, t.before.Awaits x := by
  induction frames generalizing m counts with
  | nil =>
      cases hpaced
      exact ⟨allReturn_nil m, .refl m, rfl, List.forall_mem_nil _⟩
  | cons f frames ih =>
      obtain ⟨count, later, counts, hdue, hrest, rfl⟩ :=
        Pacer.instructionsForEach_cons_eq_ok_iff.mp hpaced
      obtain ⟨hfirst, hothers⟩ := List.forall₂_cons.mp hidle
      obtain ⟨hstop, hagree, hpacer, hawaits⟩ := h.tick hdue hfirst
      rw [← hpacer] at hrest
      obtain ⟨hreturn, hagrees, hlast, hlater⟩ := ih (h.congr hagree) hrest hothers
      exact ⟨allReturn_cons_iff.mpr ⟨hstop, hreturn⟩, hagree.trans hagrees, hlast,
        List.forall_mem_append.mpr ⟨hawaits, hlater⟩⟩

/-- A tick with a step due and a key down ends the wait with its first step. -/
theorem Awaits.first_step_of_tick (h : m.Awaits x) (hkeys : f.keys.size = 16)
    (hdue : Pacer.instructionsFor f.elapsed m.pacer = .ok count later) (hcount : 1 ≤ count)
    (hdown : true ∈ f.keys) :
    ∃ key : Fin 16, f.keys[key] = true ∧ (∀ j < key, f.keys[j] = false) ∧
      ∃ taken rest, f.tick.trail m = taken :: rest ∧ taken.outcome.stop = none ∧
        Agrees (m.answered x key) taken.after := by
  have hpaced := pace_frame hkeys hdue
  have hready := (rests_of_paced hpaced).agrees
  cases hfirst : Keypad.firstDown? ⟨⟨f.keys, hkeys⟩⟩ with
  | none =>
      rw [Keypad.firstDown?_eq_none_iff, Keypad.eq_released_iff] at hfirst
      exact (hfirst hdown).elim
  | some key =>
      obtain ⟨hkey, hbefore⟩ := (Keypad.firstDown?_eq_some_iff hkeys).mp hfirst
      obtain ⟨n, hn⟩ : ∃ n, count.toNat = n + 1 := ⟨count.toNat - 1, by omega⟩
      rw [hn] at hpaced
      have htrail : f.tick.trail m = _ := tickTrail_of_paced hpaced
      obtain ⟨hstop, hagree⟩ := (h.congr hready).step_of_down hfirst f.stream
      exact ⟨key, hkey, hbefore, _, _, htrail, hstop, (hready.answered x key).trans hagree⟩

/-- A machine that waits for a key stays as it is, but for its timers, as long as no tick has
both a key down and an instruction to see it. The first tick that has both starts with
storing the lowest key that is down, and the wait is over. -/
theorem Reachable.waits_until_key_down (h : Reachable m)
    (hword : m.memory.word? m.pc = some (byteWord 0xF x 0x0A)) {frames : List Frame}
    {counts : List Int} {last : Pacer}
    (hpaced : Pacer.instructionsForEach (frames.map Frame.elapsed) m.pacer = .ok counts last)
    (hidle : List.Forall₂ Frame.Idle frames counts) :
    let ticks := frames.map Frame.tick
    let after := m.performAll ticks
    m.AllReturn ticks ∧ Agrees m after ∧ after.delay = max 0 (m.delay - frames.length) ∧
      after.sound = max 0 (m.sound - frames.length) ∧
      ∀ (f : Frame) (count : Int) (later : Pacer) (_ : f.keys.size = 16),
        Pacer.instructionsFor f.elapsed last = .ok count later → 1 ≤ count → true ∈ f.keys →
        ∃ key : Fin 16, f.keys[key] = true ∧ (∀ j < key, f.keys[j] = false) ∧
          ∃ taken rest, f.tick.trail after = taken :: rest ∧ taken.outcome.stop = none ∧
            Agrees (m.answered x key) taken.after := by
  intro ticks after
  have hawaits : m.Awaits x := ⟨hword⟩
  obtain ⟨hreturn, hagree, hlast, htrail⟩ := hawaits.performAll hpaced hidle
  have hticks : ∀ o ∈ ticks, o.IsTick := by
    intro o ho
    obtain ⟨f, -, rfl⟩ := List.mem_map.mp ho
    trivial
  have hlength : ticks.length = frames.length := List.length_map _
  have htimer (k : Timer) (hm : 0 ≤ m.timer k) :
      after.timer k = max 0 (m.timer k - frames.length) := by
    rw [← hlength]
    exact timer_performAll hticks hreturn hm fun t ht => (htrail t ht).not_sets
  refine ⟨hreturn, hagree, htimer .delay h.inRange.delay.1, htimer .sound h.inRange.sound.1, ?_⟩
  intro f count later hkeys hdue hcount hdown
  rw [← hlast] at hdue
  obtain ⟨key, hkey, hbefore, taken, rest, hfirst, hstop, hafter⟩ :=
    (hawaits.congr hagree).first_step_of_tick hkeys hdue hcount hdown
  exact ⟨key, hkey, hbefore, taken, rest, hfirst, hstop, (hagree.answered x key).trans hafter⟩

/-- A program waits at its start, over a tick of two steps with every key up and a tick
without steps with every key down. Then keys 7 and 9 are down, and it gets 7. -/
theorem lower_of_two_keys_ends_wait :
    let m := ((Machine.new ⟨.int 1, .zero⟩ false).load #[0xF0, 0x0A]).machine
    let frames : List Frame :=
      [⟨fun _ => 0, .int 2, Array.replicate 16 false⟩,
        ⟨fun _ => 0, .int 0, Array.replicate 16 true⟩]
    let last : Frame := ⟨fun _ => 0, .int 1, Array.ofFn fun key : Fin 16 => key = 7 ∨ key = 9⟩
    let after := m.performAll (frames.map Frame.tick)
    Reachable m ∧ m.AllReturn (frames.map Frame.tick) ∧ Agrees m after ∧
      ∃ taken rest, last.tick.trail after = taken :: rest ∧ taken.outcome.stop = none ∧
        Agrees (m.answered 0 7) taken.after := by
  intro m frames last after
  have hspeed : Pacer.ofClockSpeed? (.int 1) = some ⟨.int 1, .zero⟩ := by decide
  have hreachable : Reachable m := (Reachable.new false hspeed).load _
  have hword : m.memory.word? m.pc = some (byteWord 0xF 0 0x0A) :=
    word?_at_start (by decide) (by decide) (by decide)
  have hpacer : m.pacer = ⟨.int 1, .zero⟩ := pacer_load _
  clear_value m
  have hpaced : Pacer.instructionsForEach (frames.map Frame.elapsed) ⟨.int 1, .zero⟩ =
      .ok [2, 0] ⟨.int 1, .zero⟩ := by decide +kernel
  have hdue : Pacer.instructionsFor last.elapsed ⟨.int 1, .zero⟩ = .ok 1 ⟨.int 1, .zero⟩ := by
    decide +kernel
  have hidle : List.Forall₂ Frame.Idle frames [2, 0] :=
    .cons ⟨rfl, .inl (by decide +kernel)⟩ (.cons ⟨rfl, .inr rfl⟩ .nil)
  have hdown : true ∈ last.keys := by decide +kernel
  have hsize : last.keys.size = 16 := Array.size_ofFn
  rw [← hpacer] at hpaced hdue
  obtain ⟨hreturn, hagree, -, -, hends⟩ := hreachable.waits_until_key_down hword hpaced hidle
  obtain ⟨key, hkey, hbefore, hfirst⟩ := hends last 1 _ hsize hdue (by decide) hdown
  obtain rfl | rfl : key = 7 ∨ key = 9 := by simpa [last] using hkey
  · exact ⟨hreachable, hreturn, hagree, hfirst⟩
  · have hup := hbefore 7 (by decide)
    simp [last] at hup

end Machine
end Chip8
