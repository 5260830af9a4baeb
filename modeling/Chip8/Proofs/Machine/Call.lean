import Chip8.Proofs.Machine.Trail

/-!
# Calls and returns

A step pushes the address after a call, takes the top address off at a return, or
leaves the call stack as it is. While a subroutine runs, whatever it does, the stack
from before the call lies untouched below the address to return to. So the first
step that brings the stack back to its depth is the return to that address.
-/
namespace Chip8.Machine
variable {stream : RandomBytes} {m : Machine}

inductive StackMove (m : Machine) (o : Outcome) : Prop
  | kept : o.machine.stack = m.stack → StackMove m o
  | pushed (address : Int) :
      o.machine.stack = { m.stack with items := m.stack.items.push address } → StackMove m o
  | popped : m.memory.word? m.pc = some 0x00EE → o.stop = none →
      m.stack.items.back? = some o.machine.pc →
      o.machine.stack = { m.stack with items := m.stack.items.pop } → StackMove m o

theorem stackMove_step (stream : RandomBytes) (m : Machine) : StackMove m (m.step stream) := by
  have hs := stepped stream m
  generalize m.step stream = o at hs ⊢
  cases hs with
  | strayed => exact .kept rfl
  | skipped => exact .kept rfl
  | failed => exact .kept rfl
  | @completed word i after hw hi he =>
      have e := Instruction.execute_effect (a := m.pc) rfl he
      cases hi with
      | call t => exact .pushed (m.pc + 2) e.stack
      | ret => exact .popped hw rfl (e.returned rfl) e.stack
      | _ => exact .kept e.stack

/-- A stack that lies below a return address, and whatever was put above it. -/
def Below (base : CallStack Int) (address : Int) (s : CallStack Int) : Prop :=
  s.capacity = base.capacity ∧
    ∃ above, s.items.toList = base.items.toList ++ address :: above

theorem below_push (base : CallStack Int) (address : Int) :
    Below base address { base with items := base.items.push address } :=
  ⟨rfl, [], Array.toList_push⟩

theorem Below.depth_lt {base s : CallStack Int} {address : Int} (h : Below base address s) :
    base.depth < s.depth := by
  obtain ⟨-, above, hitems⟩ := h
  have hlength := congrArg List.length hitems
  simp only [List.length_append, List.length_cons, Array.length_toList] at hlength
  unfold CallStack.depth
  omega

theorem Below.push {base s : CallStack Int} {address : Int} (h : Below base address s)
    (item : Int) : Below base address { s with items := s.items.push item } := by
  obtain ⟨hcapacity, above, hitems⟩ := h
  exact ⟨hcapacity, above ++ [item], by simp [hitems]⟩

/-- Taking an entry off takes it from above, or else takes the return address. -/
theorem Below.pop {base s : CallStack Int} {address top : Int} (h : Below base address s)
    (htop : s.items.back? = some top) :
    Below base address { s with items := s.items.pop } ∨
      top = address ∧ { s with items := s.items.pop } = base := by
  obtain ⟨hcapacity, above, hitems⟩ := h
  rw [← Array.getLast?_toList, hitems] at htop
  rcases List.eq_nil_or_concat above with rfl | ⟨lower, last, rfl⟩
  · right
    have hpop : s.items.pop = base.items := by
      rw [← Array.toList_inj, Array.toList_pop, hitems, List.dropLast_concat]
    refine ⟨?_, ?_⟩
    · simpa using htop.symm
    · rw [hpop]
      cases base
      cases hcapacity
      rfl
  · left
    refine ⟨hcapacity, lower, ?_⟩
    simp only [Array.toList_pop, hitems]
    rw [List.concat_eq_append, ← List.cons_append, ← List.append_assoc, List.dropLast_concat]

/-- A step leaves what lies below an address in its place, or it is the return to it. -/
theorem below_step (stream : RandomBytes) {base : CallStack Int} {address : Int}
    (h : Below base address m.stack) :
    Below base address (m.step stream).machine.stack ∨
      m.memory.word? m.pc = some 0x00EE ∧ (m.step stream).stop = none ∧
        (m.step stream).machine.pc = address ∧ (m.step stream).machine.stack = base := by
  cases stackMove_step stream m with
  | kept hkept => exact .inl (hkept ▸ h)
  | pushed item hpushed => exact .inl (hpushed ▸ h.push item)
  | popped hword hstop htop hpopped =>
      rw [hpopped]
      rcases h.pop htop with hbelow | ⟨hpc, hbase⟩
      · exact .inl hbelow
      · exact .inr ⟨hword, hstop, hpc, hbase⟩

theorem step_call (stream : RandomBytes) {a : Fin 4096}
    (hcall : m.memory.word? m.pc = some (addressWord 0x2 a))
    (hroom : m.stack.depth < m.stack.capacity) :
    (m.step stream).stop = none ∧
      (m.step stream).machine.memory = m.memory ∧
      (m.step stream).machine.stack =
        { m.stack with items := m.stack.items.push (m.pc + 2) } ∧
      (m.step stream).machine.pc = a.val := by
  rw [step_of_execute hcall (.call a) (callTo_eq_ok_iff.mpr ⟨hroom, rfl⟩)]
  exact ⟨rfl, rfl, rfl, rfl⟩

theorem step_ret (stream : RandomBytes) (address : Int)
    (hret : m.memory.word? m.pc = some 0x00EE)
    (htop : m.stack.items.back? = some address) :
    (m.step stream).stop = none ∧
      (m.step stream).machine.memory = m.memory ∧
      (m.step stream).machine.stack = { m.stack with items := m.stack.items.pop } ∧
      (m.step stream).machine.pc = address := by
  rw [step_of_execute hret .ret (returnFromCall_eq_ok_iff.mpr ⟨address, htop, rfl⟩)]
  exact ⟨rfl, rfl, rfl, rfl⟩

/-- A call returns, and however long the subroutine runs and whatever it does, the
first step that brings the stack back to its depth before the call is a return to the
address after the call, and the stack is then what it was before the call. Ticks are
taken step by step, and nothing is said of how many instructions a tick runs. -/
theorem Reachable.call_ends_in_return (h : Reachable m) (stream : RandomBytes) {a : Fin 4096}
    (hcall : m.memory.word? m.pc = some (addressWord 0x2 a)) (hroom : m.stack.depth < 64) :
    (m.step stream).stop = none ∧
      ∀ operations : List Operation, (∀ o ∈ operations, o.Runs) →
        ∀ earlier taken later,
          (m.step stream).machine.trailAll operations = earlier ++ taken :: later →
          (∀ t ∈ earlier, t.after.stack.depth ≠ m.stack.depth) →
          taken.after.stack.depth = m.stack.depth →
            taken.before.memory.word? taken.before.pc = some 0x00EE ∧
              taken.outcome.stop = none ∧
              taken.after.pc = m.pc + 2 ∧
              taken.after.stack = m.stack := by
  have hcapacity : m.stack.depth < m.stack.capacity := by
    rw [h.inRange.capacity]
    omega
  obtain ⟨hreturns, -, hpushed, -⟩ := step_call stream hcall hcapacity
  refine ⟨hreturns, ?_⟩
  intro operations hruns earlier taken later htrail hearlier htaken
  have hlinked := linked_trailAll hruns (m.step stream).machine
  rw [htrail] at hlinked
  have hstart : Below m.stack (m.pc + 2) (m.step stream).machine.stack := by
    rw [hpushed]
    exact below_push m.stack (m.pc + 2)
  -- As long as the depth differs, the stack from before the call stays where it is.
  have hbefore : Below m.stack (m.pc + 2) taken.before.stack :=
    hlinked.holds_before (P := fun m' => Below m.stack (m.pc + 2) m'.stack) hstart
      (fun hrest hbelow => hrest.stack_eq ▸ hbelow)
      (fun t ht hbelow => by
        rcases below_step t.stream hbelow with hstays | ⟨-, -, -, hback⟩
        · exact hstays
        · exact (hearlier t ht (congrArg CallStack.depth hback)).elim)
  rcases below_step taken.stream hbefore with hstays | hreturn
  · exact absurd htaken (Nat.ne_of_gt hstays.depth_lt)
  · exact hreturn

theorem nested_call_ends_in_return :
    let m := ((Machine.new ⟨Pacer.defaultClockSpeed, .zero⟩ false).load
      #[0x22, 0x04, 0x00, 0x00, 0x22, 0x08, 0x00, 0xEE, 0x00, 0xEE]).machine
    let after := (m.step fun _ => 0).machine.performAll (List.replicate 3 (.step fun _ => 0))
    Reachable m ∧ m.memory.word? m.pc = some (addressWord 0x2 0x204) ∧ m.stack.depth < 64 ∧
      after.pc = m.pc + 2 ∧ after.stack = m.stack := by
  intro m after
  have hreachable : Reachable m := (reachable_default false).load _
  have hpc : m.pc = 0x200 := pc_of_load (by decide)
  have hstack : m.stack = ⟨64, #[]⟩ := stack_load _
  have hcall : m.memory.word? m.pc = some (addressWord 0x2 0x204) :=
    word?_at_start (by decide) (by decide) (by decide)
  have hnested : m.memory.word? 0x204 = some (addressWord 0x2 0x208) :=
    word?_of_load_eq 4 (by decide) rfl (by decide) (by decide)
  have hinner : m.memory.word? 0x208 = some 0x00EE :=
    word?_of_load_eq 8 (by decide) rfl (by decide) (by decide)
  have houter : m.memory.word? 0x206 = some 0x00EE :=
    word?_of_load_eq 6 (by decide) rfl (by decide) (by decide)
  clear_value m
  have hroom : m.stack.depth < 64 := by rw [hstack]; decide
  have hends := (hreachable.call_ends_in_return (fun _ => 0) hcall hroom).2
    (List.replicate 3 (.step fun _ => 0)) (by simp [Operation.Runs])
  -- The machines after the call, after the nested call and after the two returns.
  obtain ⟨m₁, hm₁⟩ : ∃ m₁, (m.step fun _ => 0).machine = m₁ := ⟨_, rfl⟩
  obtain ⟨m₂, hm₂⟩ : ∃ m₂, (m₁.step fun _ => 0).machine = m₂ := ⟨_, rfl⟩
  obtain ⟨m₃, hm₃⟩ : ∃ m₃, (m₂.step fun _ => 0).machine = m₃ := ⟨_, rfl⟩
  have htrail : m₁.trailAll (List.replicate 3 (.step fun _ => 0)) =
      [⟨fun _ => 0, m₁⟩, ⟨fun _ => 0, m₂⟩] ++ ⟨fun _ => 0, m₃⟩ :: [] := by
    subst hm₂ hm₃
    rfl
  have h₁ := step_call (fun _ => 0) hcall (by rw [hstack]; decide)
  rw [hm₁, hstack, hpc] at h₁
  obtain ⟨-, hmemory₁, hstack₁, hpc₁⟩ := h₁
  have h₂ := step_call (m := m₁) (fun _ => 0)
    (by rw [hmemory₁, hpc₁]; exact hnested) (by rw [hstack₁]; decide)
  rw [hm₂, hmemory₁, hstack₁, hpc₁] at h₂
  obtain ⟨-, hmemory₂, hstack₂, hpc₂⟩ := h₂
  have h₃ := step_ret (m := m₂) (fun _ => 0) 0x206
    (by rw [hmemory₂, hpc₂]; exact hinner) (by rw [hstack₂]; rfl)
  rw [hm₃, hmemory₂, hstack₂] at h₃
  obtain ⟨-, hmemory₃, hstack₃, hpc₃⟩ := h₃
  obtain ⟨-, -, hstack₄, -⟩ := step_ret (m := m₃) (fun _ => 0) 0x202
    (by rw [hmemory₃, hpc₃]; exact houter) (by rw [hstack₃]; rfl)
  have hearlier : ∀ t ∈ [(⟨fun _ => 0, m₁⟩ : TakenStep), ⟨fun _ => 0, m₂⟩],
      t.after.stack.depth ≠ m.stack.depth := by
    simp only [List.mem_cons, List.not_mem_nil, or_false, forall_eq_or_imp, forall_eq,
      TakenStep.after, TakenStep.outcome, hm₂, hm₃, hstack, hstack₂, hstack₃]
    decide
  have htaken : (⟨fun _ => 0, m₃⟩ : TakenStep).after.stack.depth = m.stack.depth := by
    simp only [TakenStep.after, TakenStep.outcome, hstack₄, hstack₃, hstack]
    rfl
  rw [hm₁] at hends
  obtain ⟨-, -, hback, hsame⟩ := hends _ _ _ htrail hearlier htaken
  have hafter : after = (⟨fun _ => 0, m₃⟩ : TakenStep).after := by
    subst hm₁ hm₂ hm₃
    rfl
  rw [hafter]
  exact ⟨hreachable, hcall, hroom, hback, hsame⟩

end Chip8.Machine
