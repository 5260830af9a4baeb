import Chip8.Proofs.Machine.Trail

/-!
# Ticks only group steps

Two machines agree if a program finds the same registers, index, program counter,
memory, call stack and pixels on both. Timers, pacers and counts may differ. A
machine that agrees with another goes on to agree with it, step by step, as long as
both see the same keys and draw the same random bytes and neither reads its delay
timer, which is the one instruction that would tell them apart.

Ticks change nothing between their steps that machines must agree on. So it does not
matter how many steps each tick has, only how many there are in all.
-/
namespace Chip8

namespace Machine

structure Agrees (m m' : Machine) : Prop where
  registers : m'.v = m.v
  index : m'.i = m.i
  pc : m'.pc = m.pc
  memory : m'.memory = m.memory
  stack : m'.stack = m.stack
  pixels : m'.screen.pixels = m.screen.pixels

theorem Agrees.refl (m : Machine) : Agrees m m := ⟨rfl, rfl, rfl, rfl, rfl, rfl⟩

theorem Agrees.trans {m between after : Machine} (h : Agrees m between)
    (h' : Agrees between after) : Agrees m after where
  registers := h'.registers.trans h.registers
  index := h'.index.trans h.index
  pc := h'.pc.trans h.pc
  memory := h'.memory.trans h.memory
  stack := h'.stack.trans h.stack
  pixels := h'.pixels.trans h.pixels

structure Alike (stream stream' : RandomBytes) (m m' : Machine) : Prop
    extends Agrees m m' where
  draws : ∀ k, stream' (m'.drawn + k) = stream (m.drawn + k)

inductive Matched (R : Machine → Machine → Prop) :
    EStateM.Result Fault Machine Unit → EStateM.Result Fault Machine Unit → Prop
  | ok {m m' : Machine} : R m m' → Matched R (.ok () m) (.ok () m')
  | error {m m' : Machine} (fault : Fault) : R m m' → Matched R (.error fault m) (.error fault m')

namespace Alike
variable {stream stream' : RandomBytes} {m m' : Machine}

theorem reg (h : Alike stream stream' m m') (x : Fin 16) : m'.reg x = m.reg x := by
  unfold Machine.reg
  rw [h.registers]

theorem setReg (h : Alike stream stream' m m') (x : Fin 16) {b b' : UInt8} (hb : b' = b) :
    Alike stream stream' (m.setReg x b) (m'.setReg x b') := by
  have hregisters : (m'.setReg x b').v = (m.setReg x b).v := by
    unfold Machine.setReg
    rw [h.registers, hb]
  exact { h with registers := hregisters }

theorem setFlag (h : Alike stream stream' m m') {flag flag' : Bool} (hflag : flag' = flag) :
    Alike stream stream' (m.setFlag flag) (m'.setFlag flag') :=
  h.setReg flagRegister (by rw [hflag])

theorem skipIf (h : Alike stream stream' m m') {condition condition' : Bool}
    (hcondition : condition' = condition) :
    Alike stream stream' (m.skipIf condition) (m'.skipIf condition') := by
  rw [skipIf_eq, skipIf_eq]
  exact { h with pc := by rw [h.pc, hcondition] }

theorem goTo (h : Alike stream stream' m m') {pc pc' : Int} (hpc : pc' = pc) :
    Alike stream stream' { m with pc } { m' with pc := pc' } := { h with pc := hpc }

theorem point (h : Alike stream stream' m m') {i i' : Int} (hi : i' = i) :
    Alike stream stream' { m with i } { m' with i := i' } := { h with index := hi }

theorem callTo (h : Alike stream stream' m m') (address : Int) :
    Matched (Alike stream stream') (callTo address m) (callTo address m') := by
  rw [callTo_apply, callTo_apply, h.stack, h.pc]
  split
  · exact .error _ h
  · exact .ok { h with stack := rfl, pc := rfl }

theorem returnFromCall (h : Alike stream stream' m m') :
    Matched (Alike stream stream') (returnFromCall m) (returnFromCall m') := by
  rw [returnFromCall_apply, returnFromCall_apply, h.stack]
  split
  · exact .error _ h
  · exact .ok { h with stack := rfl, pc := rfl }

end Alike
end Machine

namespace Screen
variable {width height : Nat} {s s' : Screen width height}

theorem invert_congr (h : s'.pixels = s.pixels) (x y : Int) :
    (s'.invert x y).1 = (s.invert x y).1 ∧
      (s'.invert x y).2.pixels = (s.invert x y).2.pixels := by
  unfold invert lit
  split
  · exact ⟨by simp only [h], by simp only [h]⟩
  · exact ⟨rfl, h⟩

/-- What is drawn and what it hits does not depend on what was drawn since a report. -/
theorem invertAll_congr (h : s'.pixels = s.pixels) (cells : List (Int × Int)) :
    (s'.invertAll cells).1 = (s.invertAll cells).1 ∧
      (s'.invertAll cells).2.pixels = (s.invertAll cells).2.pixels := by
  unfold invertAll
  refine List.foldl_rel (r := fun p p' : Bool × Screen width height =>
    p.1 = p'.1 ∧ p.2.pixels = p'.2.pixels) ⟨rfl, h⟩ ?_
  rintro cell - ⟨hit', s'⟩ ⟨hit, s⟩ ⟨hhit, hpixels⟩
  obtain ⟨hwas, hnext⟩ := invert_congr hpixels cell.1 cell.2
  exact ⟨congrArg₂ (· || ·.getD false) hhit hwas, hnext⟩

end Screen

namespace Machine
variable {stream stream' : RandomBytes} {m m' : Machine}

namespace Alike

theorem paint (h : Alike stream stream' m m') {screen screen' : Screen screenWidth screenHeight}
    (hpixels : screen'.pixels = screen.pixels) :
    Alike stream stream' { m with screen } { m' with screen := screen' } :=
  { h with pixels := hpixels }

theorem readBlock (h : Alike stream stream' m m') (length : Int) :
    m'.memory.readBlock m'.i length = m.memory.readBlock m.i length := by
  rw [h.memory, h.index]

theorem drawSprite (h : Alike stream stream' m m') (x y n : Fin 16) :
    Matched (Alike stream stream') (drawSprite x y n m) (drawSprite x y n m') := by
  rw [drawSprite_apply, drawSprite_apply, h.readBlock, h.reg x, h.reg y]
  cases m.memory.readBlock m.i n.val with
  | error e => exact .error (.memory e) h
  | ok rows =>
      have hdrawn := Screen.invertAll_congr h.pixels (spriteCells ((m.reg x).toNat % screenWidth)
        ((m.reg y).toNat % screenHeight) rows.toList)
      exact .ok ((h.paint hdrawn.2).setFlag hdrawn.1)

theorem waitForKey (h : Alike stream stream' m m') (hkeys : m'.keypad = m.keypad)
    (x : Fin 16) : Alike stream stream' (m.waitForKey x) (m'.waitForKey x) := by
  have hdown : m'.keypad.firstDown? = m.keypad.firstDown? := by rw [hkeys]
  unfold Machine.waitForKey
  rw [hdown]
  cases m.keypad.firstDown? with
  | none => exact h.goTo (congrArg (· - 2) h.pc)
  | some key => exact h.setReg x rfl

theorem store (h : Alike stream stream' m m') {block block' : Array UInt8}
    (hblock : block' = block) :
    Matched (Alike stream stream') (store block m) (store block' m') := by
  have hwrite : Memory.writeBlock m'.i block' m'.memory = Memory.writeBlock m.i block m.memory := by
    rw [h.memory, h.index, hblock]
  rw [store_apply, store_apply, hwrite]
  cases Memory.writeBlock m.i block m.memory with
  | error e memory => exact .error (.memory e) { h with memory := rfl }
  | ok _ memory => exact .ok { h with memory := rfl }

theorem loadRegisters (h : Alike stream stream' m m') (x : Fin 16) :
    Matched (Alike stream stream') (loadRegisters x m) (loadRegisters x m') := by
  rw [loadRegisters_apply, loadRegisters_apply, h.readBlock]
  cases m.memory.readBlock m.i (x.val + 1 : Nat) with
  | error e => exact .error (.memory e) h
  | ok block =>
      dsimp only
      split
      · exact .ok { h with registers := by rw [h.registers] }
      · exact .error _ h

/-- Only the instruction that reads the delay timer can tell the machines apart. -/
theorem execute (h : Alike stream stream' m m') (hkeys : m'.keypad = m.keypad)
    {i : Instruction} (hi : ∀ x, i ≠ .getDelay x) :
    Matched (Alike stream stream') (i.execute stream m) (i.execute stream' m') := by
  cases i with
  | clear => exact .ok { h with pixels := rfl }
  | ret => exact h.returnFromCall
  | jump a => exact .ok (h.goTo rfl)
  | call a => exact h.callTo a.val
  | skipIfByte x k | skipUnlessByte x k => exact .ok (h.skipIf (by rw [h.reg x]))
  | skipIfSame x y | skipUnlessSame x y => exact .ok (h.skipIf (by rw [h.reg x, h.reg y]))
  | skipIfKey x | skipUnlessKey x => exact .ok (h.skipIf (by rw [h.reg x, hkeys]))
  | setByte x k => exact .ok (h.setReg x rfl)
  | addByte x k => exact .ok (h.setReg x (by rw [h.reg x]))
  | copy x y => exact .ok (h.setReg x (h.reg y))
  | or x y | and x y | xor x y => exact .ok (h.setReg x (by rw [h.reg x, h.reg y]))
  | add x y | subtract x y | subtractFrom x y =>
      have hx := h.reg x
      have hy := h.reg y
      exact .ok ((h.setFlag (by rw [hx, hy])).setReg x (by rw [hx, hy]))
  | shiftRight x =>
      have hflagged := h.setFlag (congrArg (fun b : UInt8 => b.toNat.testBit 0) (h.reg x))
      exact .ok (hflagged.setReg x (by rw [hflagged.reg x]))
  | shiftLeft x =>
      have hflagged := h.setFlag (congrArg (fun b : UInt8 => b.toNat.testBit 7) (h.reg x))
      exact .ok (hflagged.setReg x (by rw [hflagged.reg x]))
  | setIndex a => exact .ok (h.point rfl)
  | jumpFromV0 a => exact .ok (h.goTo (by rw [h.reg]))
  | random x k =>
      have hbyte : stream' m'.drawn = stream m.drawn := h.draws 0
      have hlater (k : Nat) : stream' (m'.drawn + 1 + k) = stream (m.drawn + 1 + k) := by
        rw [Nat.add_assoc, Nat.add_assoc]
        exact h.draws (1 + k)
      exact .ok { h.setReg x (by rw [hbyte]) with draws := hlater }
  | draw x y n => exact h.drawSprite x y n
  | getDelay x => exact (hi x rfl).elim
  | waitForKey x => exact .ok (h.waitForKey hkeys x)
  | setDelay x | setSound x => exact .ok { h with }
  | addToIndex x =>
      have hsum : m'.i + (m'.reg x).toNat = m.i + (m.reg x).toNat := by rw [h.index, h.reg x]
      exact .ok ((h.setFlag (by rw [hsum])).point (by rw [hsum]))
  | pointAtGlyph x => exact .ok (h.point (by rw [h.reg x]))
  | storeDigits x =>
      rw [Instruction.execute_storeDigits, Instruction.execute_storeDigits]
      exact h.store (by rw [h.reg x])
  | storeRegisters x =>
      rw [Instruction.execute_storeRegisters, Instruction.execute_storeRegisters]
      exact h.store (by rw [h.registers])
  | loadRegisters x => exact h.loadRegisters x

theorem fetched (h : Alike stream stream' m m') (word : Nat) :
    Alike stream stream' (m.fetched word) (m'.fetched word) :=
  { h with pc := congrArg (· + 2) h.pc }

/-- The machines stay alike also if the step fails, which it then does on both. -/
theorem step (h : Alike stream stream' m m') (hkeys : m'.keypad = m.keypad)
    (hblind : ∀ word x, m.memory.word? m.pc = some word →
      ¬ Instruction.StandsFor word (.getDelay x)) :
    Alike stream stream' (m.step stream).machine (m'.step stream').machine := by
  have hfetch : m'.memory.word? m'.pc = m.memory.word? m.pc := by rw [h.memory, h.pc]
  cases hw : m.memory.word? m.pc with
  | none =>
      rw [step_of_word?_eq_none hw, step_of_word?_eq_none (hfetch.trans hw)]
      exact { h with }
  | some word =>
      rw [step_of_word?_eq_some hw, step_of_word?_eq_some (hfetch.trans hw)]
      have hready := h.fetched word
      cases hi : Instruction.ofOpcode? word with
      | none => exact { hready with }
      | some i =>
          have hstands := Instruction.standsFor_of_ofOpcode? (Memory.word?_lt hw) hi
          have hdelay (x : Fin 16) : i ≠ .getDelay x := by
            rintro rfl
            exact hblind word x hw hstands
          have hrun := hready.execute hkeys hdelay
          dsimp only
          generalize i.execute stream (m.fetched word) = result at hrun
          generalize i.execute stream' (m'.fetched word) = result' at hrun
          cases hrun with
          | ok hafter => exact { hafter with }
          | error fault hleft => exact hleft

theorem rest {after after' : Machine} (h : Alike stream stream' m m') (hrest : Rests m after)
    (hrest' : Rests m' after') : Alike stream stream' after after' := by
  unfold Rests at hrest hrest'
  rw [hrest, hrest']
  exact { h with }

end Alike
end Machine

namespace TakenStep

/-- The step draws from a stream and sees the keys of a snapshot. -/
def Under (stream : RandomBytes) (keys : Array Bool) (t : TakenStep) : Prop :=
  t.stream = stream ∧ Keypad.ofSnapshot? keys = some t.before.keypad

def ReadsDelay (t : TakenStep) : Prop :=
  ∃ word x, t.before.memory.word? t.before.pc = some word ∧
    Instruction.StandsFor word (.getDelay x)

end TakenStep

namespace Machine
variable {stream stream' : RandomBytes} {m m' : Machine} {keys : Array Bool}

/-- Alike machines are alike again after equally many steps, whatever rests lie between. -/
theorem Alike.linked {after after' : Machine} {trail trail' : List TakenStep}
    (h : Alike stream stream' m m') (hrun : Linked m trail after)
    (hrun' : Linked m' trail' after') (hlength : trail.length = trail'.length)
    (hunder : ∀ t ∈ trail, t.Under stream keys) (hunder' : ∀ t ∈ trail', t.Under stream' keys)
    (hblind : ∀ t ∈ trail, ¬ t.ReadsDelay) : Alike stream stream' after after' := by
  induction hrun generalizing m' trail' with
  | nil hrest =>
      obtain rfl : trail' = [] := List.length_eq_zero_iff.mp hlength.symm
      cases hrun' with
      | nil hrest' => exact h.rest hrest hrest'
  | @cons m after t trail hrest hlinked ih =>
      cases hrun' with
      | nil => cases hlength
      | @cons _ _ t' trail' hrest' hlinked' =>
          obtain ⟨hstream, hkeypad⟩ := hunder t (.head trail)
          obtain ⟨hstream', hkeypad'⟩ := hunder' t' (.head trail')
          have hkeys : t'.before.keypad = t.before.keypad :=
            Option.some.inj (hkeypad'.symm.trans hkeypad)
          have hstep : Alike stream stream' t.after t'.after := by
            unfold TakenStep.after TakenStep.outcome
            rw [hstream, hstream']
            apply (h.rest hrest hrest').step hkeys
            intro word x hword hstands
            exact hblind t (.head trail) ⟨word, x, hword, hstands⟩
          apply ih hstep hlinked' (Nat.succ.inj hlength)
          · exact fun u hu => hunder u (.tail t hu)
          · exact fun u hu => hunder' u (.tail t' hu)
          · exact fun u hu => hblind u (.tail t hu)

theorem under_trail {n : Nat} {t : TakenStep} (ht : t ∈ trail stream n m)
    (hkeys : Keypad.ofSnapshot? keys = some m.keypad) : t.Under stream keys := by
  apply holds_in_trail (P := fun m => Keypad.ofSnapshot? keys = some m.keypad) _ hkeys ht
  intro m hm
  rw [(step_keeps stream m).1, hm]

theorem keypad_of_paced {elapsed : Number} {count : Nat} {ready : Machine}
    (h : pace elapsed keys m = .ok count ready) :
    Keypad.ofSnapshot? keys = some ready.keypad := by
  obtain ⟨keypad, _, pacer, hkeys, -, -, rfl⟩ := pace_eq_ok_iff.mp h
  exact hkeys

theorem under_tickTrail {elapsed : Number} {t : TakenStep}
    (ht : t ∈ m.tickTrail stream elapsed keys) : t.Under stream keys := by
  obtain ⟨count, ready, hpaced, ht⟩ := paced_of_mem_tickTrail ht
  exact under_trail ht (keypad_of_paced hpaced)

/-- Ticks with the same keys, one for each elapsed time. -/
def ticks (stream : RandomBytes) (keys : Array Bool) (elapsed : List Number) :
    List Operation :=
  elapsed.map fun e => .tick stream e keys

theorem trailAll_ticks_cons (e : Number) (elapsed : List Number) :
    m.trailAll (ticks stream keys (e :: elapsed)) =
      m.tickTrail stream e keys ++
        (m.tick stream e keys).machine.trailAll (ticks stream keys elapsed) := rfl

theorem under_ticks {elapsed : List Number} {t : TakenStep}
    (ht : t ∈ m.trailAll (ticks stream keys elapsed)) : t.Under stream keys := by
  induction elapsed generalizing m with
  | nil => cases ht
  | cons e elapsed ih =>
      rw [trailAll_ticks_cons] at ht
      rcases List.mem_append.mp ht with hfirst | hlater
      · exact under_tickTrail hfirst
      · exact ih hlater

theorem linked_ticks (stream : RandomBytes) (keys : Array Bool) (elapsed : List Number)
    (m : Machine) : Linked m (m.trailAll (ticks stream keys elapsed))
      (m.performAll (ticks stream keys elapsed)) := by
  apply linked_trailAll
  intro o ho
  obtain ⟨e, -, rfl⟩ := List.mem_map.mp ho
  trivial

/-- The machine is caught in a jump to itself at the start of its program. -/
structure Idles (m : Machine) : Prop where
  pc : m.pc = programAddress
  word : m.memory.word? programAddress = some (addressWord 0x1 0x200)

theorem Idles.step (h : m.Idles) (stream : RandomBytes) :
    (m.step stream).stop = none ∧ (m.step stream).machine.Idles := by
  have hword : m.memory.word? m.pc = some (addressWord 0x1 0x200) := by rw [h.pc, h.word]
  rw [step_of_execute hword (.jump 0x200) rfl]
  exact ⟨rfl, rfl, h.word⟩

theorem Idles.trail (h : m.Idles) (stream : RandomBytes) (n : Nat) :
    (trail stream n m).length = n ∧ ∀ t ∈ trail stream n m, t.before.Idles := by
  induction n generalizing m with
  | zero => exact ⟨rfl, List.forall_mem_nil _⟩
  | succ n ih =>
      obtain ⟨hreturns, hnext⟩ := h.step stream
      obtain ⟨hlength, hlater⟩ := ih hnext
      unfold Machine.trail
      rw [hreturns]
      exact ⟨congrArg Nat.succ hlength, List.forall_mem_cons.mpr ⟨h, hlater⟩⟩

theorem Idles.not_readsDelay {t : TakenStep} (h : t.before.Idles) : ¬ t.ReadsDelay := by
  rintro ⟨word, x, hword, hstands⟩
  rw [h.pc, h.word] at hword
  cases hword
  cases hstands.unique (.jump 0x200)

theorem pacer_tick {elapsed : Number} {count : Nat} {ready : Machine}
    (h : pace elapsed keys m = .ok count ready) :
    (m.tick stream elapsed keys).machine.pacer = ready.pacer := by
  have hrun : (steps stream count ready).machine.pacer = ready.pacer :=
    stepsFrom_preserves (P := fun after => after.pacer = ready.pacer)
      (fun m hm => (step_keeps stream m).2.1.trans hm) count rfl
  exact holds_after_tick (P := fun after => after.pacer = ready.pacer) h hrun fun _ h => h

theorem Idles.tick {elapsed : Number} {keypad : Keypad} {count : Int} (h : m.Idles)
    (stream : RandomBytes) (hkeys : Keypad.ofSnapshot? keys = some keypad)
    (hdue : Pacer.instructionsFor elapsed m.pacer = .ok count m.pacer) :
    (m.tickTrail stream elapsed keys).length = count.toNat ∧
      (∀ t ∈ m.tickTrail stream elapsed keys, t.before.Idles) ∧
      (m.tick stream elapsed keys).machine.Idles ∧
      (m.tick stream elapsed keys).machine.pacer = m.pacer := by
  have hpaced : pace elapsed keys m = .ok count.toNat { m with keypad } :=
    pace_eq_ok_iff.mpr ⟨keypad, count, m.pacer, hkeys, hdue, rfl, rfl⟩
  have hready : Idles { m with keypad } := ⟨h.pc, h.word⟩
  have hafter : (m.tick stream elapsed keys).machine.Idles :=
    tick_preserves elapsed keys (fun _ _ h => ⟨h.pc, h.word⟩) (fun _ _ h => ⟨h.pc, h.word⟩)
      (fun _ h => (h.step stream).2) (fun _ h => ⟨h.pc, h.word⟩) h
  obtain ⟨hlength, hidle⟩ := hready.trail stream count.toNat
  rw [tickTrail_of_paced hpaced]
  have hpacer : (m.tick stream elapsed keys).machine.pacer = _ := pacer_tick hpaced
  exact ⟨hlength, hidle, hafter, hpacer⟩

/-- Machines that agree still agree after ticks with equally many steps in all. A tick
may also be stopped; the steps it took until then count. -/
theorem grouping_does_not_show {elapsed elapsed' : List Number} (hagree : Agrees m m')
    (hdraws : ∀ k, stream' (m'.drawn + k) = stream (m.drawn + k))
    (hcount : (m.trailAll (ticks stream keys elapsed)).length =
      (m'.trailAll (ticks stream' keys elapsed')).length)
    (hblind : ∀ t ∈ m.trailAll (ticks stream keys elapsed), ¬ t.ReadsDelay) :
    Agrees (m.performAll (ticks stream keys elapsed))
      (m'.performAll (ticks stream' keys elapsed')) := by
  have halike : Alike stream stream' m m' := { hagree with draws := hdraws }
  have hafter := halike.linked (linked_ticks stream keys elapsed m)
    (linked_ticks stream' keys elapsed' m') hcount (fun _ => under_ticks) (fun _ => under_ticks)
    hblind
  exact hafter.toAgrees

theorem grouping_does_not_show_in_a_loop :
    let m := ((Machine.new ⟨.int 1, .zero⟩ false).load #[0x12, 0x00]).machine
    let m' := { m with delay := 5, sound := 3 }
    let together := ticks (fun _ => 0) (Array.replicate 16 false) [.int 2]
    let apart := ticks (fun _ => 0) (Array.replicate 16 false) [.int 1, .int 1]
    (m.trailAll together).length = 2 ∧ (m'.trailAll apart).length = 2 ∧
      Agrees (m.performAll together) (m'.performAll apart) := by
  intro m m' together apart
  have hpc : m.pc = programAddress := pc_of_load (by decide)
  have hword : m.memory.word? m.pc = some (addressWord 0x1 0x200) :=
    word?_at_start (by decide) (by decide) (by decide)
  have hpacer : m.pacer = ⟨.int 1, .zero⟩ := by
    show (Machine.load _ _).machine.pacer = _
    rw [load_of_fits (by decide)]
    rfl
  clear_value m
  have hidle : m.Idles := ⟨hpc, hpc ▸ hword⟩
  have hidle' : m'.Idles := ⟨hidle.pc, hidle.word⟩
  have hpacer' : m'.pacer = ⟨.int 1, .zero⟩ := hpacer
  have hagree : Agrees m m' := ⟨rfl, rfl, rfl, rfl, rfl, rfl⟩
  clear_value m'
  have hone : Pacer.instructionsFor (.int 1) ⟨.int 1, .zero⟩ = .ok 1 ⟨.int 1, .zero⟩ := by
    decide +kernel
  have htwo : Pacer.instructionsFor (.int 2) ⟨.int 1, .zero⟩ = .ok 2 ⟨.int 1, .zero⟩ := by
    decide +kernel
  have hkeys : Keypad.ofSnapshot? (Array.replicate 16 false) = some Keypad.released := by decide
  rw [← hpacer] at htwo
  obtain ⟨hlength, htrail, -, -⟩ := hidle.tick (fun _ => 0) hkeys htwo
  rw [← hpacer'] at hone
  obtain ⟨hfirst, -, hbetween, hkept⟩ := hidle'.tick (fun _ => 0) hkeys hone
  rw [← hkept] at hone
  obtain ⟨hsecond, -, -, -⟩ := hbetween.tick (fun _ => 0) hkeys hone
  have htogether : m.trailAll together = m.tickTrail (fun _ => 0) (.int 2) _ :=
    List.append_nil _
  have hapart : (m'.trailAll apart).length = 2 := by
    show (m'.trailAll (ticks _ _ (_ :: _ :: []))).length = 2
    rw [trailAll_ticks_cons, trailAll_ticks_cons, List.length_append, List.length_append,
      hfirst, hsecond]
    rfl
  have hblind : ∀ t ∈ m.trailAll together, ¬ t.ReadsDelay := by
    rw [htogether]
    exact fun t ht => (htrail t ht).not_readsDelay
  rw [← htogether] at hlength
  refine ⟨hlength, hapart, ?_⟩
  exact grouping_does_not_show hagree (fun _ => rfl) (hlength.trans hapart.symm) hblind

end Machine
end Chip8
