import Chip8.CallStack

/-!
# Call stacks as bounded lists

Whatever is asked of a call stack, its entries are what a list holds that grows by each
entry that was put on and loses its last one for each that was taken off. Requests that
were refused do not count, and which ones are refused is told by that list and the
capacity.

The same is then shown of a row of cells that is never cleared, with a count of the cells
in use: it answers each request as the call stack does, whatever lies in the other cells.
-/
namespace Chip8.CallStack
variable {α σ τ : Type} {capacity : Int}

inductive Request (α : Type) where
  | push (item : α)
  | pop
  deriving DecidableEq

/-- A pop is answered with the entry that was taken off, and a push with none. -/
abbrev Answer (α : Type) := Except Error (Option α)

/-- The two operations of something that entries are put on and taken off. -/
structure Operations (σ α : Type) where
  push : α → EStateM Error σ Unit
  pop : EStateM Error σ α

namespace Operations

def perform (o : Operations σ α) (s : σ) : Request α → Answer α × σ
  | .push item =>
      match o.push item s with
      | .ok _ after => (.ok none, after)
      | .error e left => (.error e, left)
  | .pop =>
      match o.pop s with
      | .ok item after => (.ok (some item), after)
      | .error e left => (.error e, left)

def after (o : Operations σ α) (s : σ) (requests : List (Request α)) : σ :=
  requests.foldl (fun s r => (o.perform s r).2) s

def log (o : Operations σ α) (s : σ) : List (Request α) → List (Request α × Answer α)
  | [] => []
  | r :: requests => (r, (o.perform s r).1) :: o.log (o.perform s r).2 requests

/-- What is the same for one request is the same for any number of them. -/
theorem simulates {o : Operations σ α} {o' : Operations τ α} {R : σ → τ → Prop}
    (hstep : ∀ s t r, R s t →
      (o.perform s r).1 = (o'.perform t r).1 ∧ R (o.perform s r).2 (o'.perform t r).2)
    (requests : List (Request α)) {s : σ} {t : τ} (h : R s t) :
    o.log s requests = o'.log t requests ∧ R (o.after s requests) (o'.after t requests) := by
  induction requests generalizing s t with
  | nil => exact ⟨rfl, h⟩
  | cons r requests ih =>
      obtain ⟨hanswer, hnext⟩ := hstep s t r h
      obtain ⟨hlog, hafter⟩ := ih hnext
      refine ⟨?_, hafter⟩
      simp only [log, hanswer, hlog]

end Operations

def operations : Operations (CallStack α) α := ⟨push, pop⟩

/-! ## The list of entries -/

/-- What a request that was answered makes of a list. -/
def Request.change (held : List α) : Request α → Answer α → List α
  | push item, .ok _ => held ++ [item]
  | pop, .ok _ => held.dropLast
  | _, .error _ => held

/-- What a list holds after requests that were answered. -/
def contents (held : List α) (log : List (Request α × Answer α)) : List α :=
  log.foldl (fun held entry => entry.1.change held entry.2) held

theorem push_apply (s : CallStack α) (item : α) :
    push item s =
      if s.capacity ≤ s.depth then .error .overflow s
      else .ok () { s with items := s.items.push item } := by
  show (if s.capacity ≤ s.depth then _ else _ : EStateM Error (CallStack α) Unit) s = _
  split <;> rfl

theorem pop_apply (s : CallStack α) :
    pop s =
      match s.items.back? with
      | none => .error .underflow s
      | some item => .ok item { s with items := s.items.pop } := by
  show (match s.items.back? with | none => _ | some item => _ : EStateM Error _ α) s = _
  cases s.items.back? <;> rfl

theorem perform_push (s : CallStack α) (item : α) :
    operations.perform s (.push item) =
      if s.capacity ≤ s.depth then (.error .overflow, s)
      else (.ok none, { s with items := s.items.push item }) := by
  by_cases h : s.capacity ≤ s.depth
  · simp only [Operations.perform, operations, push_apply, if_pos h]
  · simp only [Operations.perform, operations, push_apply, if_neg h]

theorem perform_pop (s : CallStack α) :
    operations.perform s .pop =
      match s.items.back? with
      | none => (.error .underflow, s)
      | some item => (.ok (some item), { s with items := s.items.pop }) := by
  simp only [Operations.perform, operations, pop_apply]
  cases s.items.back? <;> rfl

theorem toList_perform (s : CallStack α) (r : Request α) :
    (operations.perform s r).2.items.toList =
      r.change s.items.toList (operations.perform s r).1 := by
  cases r with
  | push item =>
      rw [perform_push]
      split
      · rfl
      · exact Array.toList_push
  | pop =>
      rw [perform_pop]
      split
      · rfl
      · exact Array.toList_pop

theorem toList_after (s : CallStack α) (requests : List (Request α)) :
    (operations.after s requests).items.toList =
      contents s.items.toList (operations.log s requests) := by
  induction requests generalizing s with
  | nil => rfl
  | cons r requests ih =>
      have hnext := ih (operations.perform s r).2
      rw [toList_perform] at hnext
      exact hnext

structure Within (capacity : Int) (s : CallStack α) : Prop where
  capacity_eq : s.capacity = capacity
  depth_le : (s.depth : Int) ≤ max 0 capacity

theorem within_empty : Within capacity (empty capacity : CallStack α) :=
  ⟨rfl, Int.le_max_left 0 capacity⟩

theorem Within.perform {s : CallStack α} (h : s.Within capacity) (r : Request α) :
    (operations.perform s r).2.Within capacity := by
  have hdepth := h.depth_le
  cases r with
  | push item =>
      rw [perform_push, h.capacity_eq]
      split
      · exact h
      · refine ⟨rfl, ?_⟩
        simp only [depth, Array.size_push] at *
        omega
  | pop =>
      rw [perform_pop]
      split
      · exact h
      · refine ⟨h.capacity_eq, ?_⟩
        simp only [depth, Array.size_pop] at *
        omega

theorem Within.after {s : CallStack α} (h : s.Within capacity) (requests : List (Request α)) :
    (operations.after s requests).Within capacity := by
  induction requests generalizing s with
  | nil => exact h
  | cons r requests ih => exact ih (h.perform r)

theorem eq_empty_of_new {s : CallStack α} (h : new capacity = .ok s) : s = empty capacity := by
  unfold new at h
  cases hentries : Storage.entries Storage.wordSize capacity with
  | error e => simp [hentries, bind, Except.bind] at h
  | ok n =>
      simp [hentries, bind, Except.bind, pure, Except.pure] at h
      exact h.symm

/-! ## A row of cells -/

/-- A row of cells, and how many of them are in use, from the first on. -/
structure Slots (α : Type) (capacity : Int) where
  cells : Vector α capacity.toNat
  used : Nat
  used_le : used ≤ capacity.toNat

namespace Slots

def unused (cells : Vector α capacity.toNat) : Slots α capacity := ⟨cells, 0, Nat.zero_le _⟩

def items (t : Slots α capacity) : List α := t.cells.toList.take t.used

def push (item : α) : EStateM Error (Slots α capacity) Unit := fun t =>
  if h : capacity ≤ t.used then .error .overflow t
  else .ok () ⟨t.cells.set t.used item (by omega), t.used + 1, by omega⟩

/-- The entry stays in its cell. -/
def pop : EStateM Error (Slots α capacity) α := fun t =>
  match h : t.used with
  | 0 => .error .underflow t
  | n + 1 =>
      have hn : n < capacity.toNat := Nat.lt_of_lt_of_le (by omega) t.used_le
      .ok t.cells[n] ⟨t.cells, n, Nat.le_of_lt hn⟩

def operations : Operations (Slots α capacity) α := ⟨push, pop⟩

theorem length_items (t : Slots α capacity) : t.items.length = t.used := by
  have hle := t.used_le
  simp [items, hle]

/-- The cells in use hold what is on the call stack. -/
structure Shows (t : Slots α capacity) (s : CallStack α) : Prop where
  capacity_eq : s.capacity = capacity
  items_eq : s.items.toList = t.items

theorem Shows.depth_eq {t : Slots α capacity} {s : CallStack α} (h : t.Shows s) :
    s.depth = t.used := by
  rw [← length_items, ← h.items_eq, Array.length_toList]
  rfl

theorem perform_push (t : Slots α capacity) (item : α) :
    operations.perform t (.push item) =
      if h : capacity ≤ t.used then (.error .overflow, t)
      else (.ok none, ⟨t.cells.set t.used item (by omega), t.used + 1, by omega⟩) := by
  by_cases h : capacity ≤ t.used
  · simp [Operations.perform, operations, push, h]
  · simp [Operations.perform, operations, push, h]

theorem perform_pop_of_unused {t : Slots α capacity} (h : t.used = 0) :
    operations.perform t .pop = (.error .underflow, t) := by
  obtain ⟨cells, used, hle⟩ := t
  obtain rfl : used = 0 := h
  rfl

theorem perform_pop_of_used {t : Slots α capacity} {n : Nat} (h : t.used = n + 1)
    (hn : n < capacity.toNat) :
    operations.perform t .pop = (.ok (some t.cells[n]), ⟨t.cells, n, Nat.le_of_lt hn⟩) := by
  obtain ⟨cells, used, hle⟩ := t
  obtain rfl : used = n + 1 := h
  rfl

theorem take_set_self {size : Nat} (cells : Vector α size) {k : Nat} (hk : k < size) (item : α) :
    (cells.set k item).toList.take (k + 1) = cells.toList.take k ++ [item] := by
  rw [Vector.toList_set, List.take_add_one, List.take_set_of_le (Nat.le_refl k)]
  simp [hk]

/-- One request is answered the same, and leaves the same entries. -/
theorem Shows.perform {s : CallStack α} {t : Slots α capacity} (h : t.Shows s) (r : Request α) :
    (operations.perform t r).1 = (CallStack.operations.perform s r).1 ∧
      (operations.perform t r).2.Shows (CallStack.operations.perform s r).2 := by
  cases r with
  | push item =>
      rw [CallStack.perform_push, perform_push, h.capacity_eq, h.depth_eq]
      by_cases hfull : capacity ≤ t.used
      · rw [if_pos hfull, dif_pos hfull]
        exact ⟨rfl, h⟩
      · rw [if_neg hfull, dif_neg hfull]
        refine ⟨rfl, rfl, ?_⟩
        rw [Array.toList_push, h.items_eq]
        exact (take_set_self t.cells (by omega) item).symm
  | pop =>
      rw [CallStack.perform_pop, ← Array.getLast?_toList, h.items_eq]
      cases hused : t.used with
      | zero =>
          rw [perform_pop_of_unused hused]
          have hnone : t.items.getLast? = none := by simp [items, hused]
          rw [hnone]
          exact ⟨rfl, h⟩
      | succ n =>
          have hn : n < capacity.toNat := Nat.lt_of_lt_of_le (by omega) t.used_le
          have hitems : t.items = t.cells.toList.take n ++ [t.cells[n]] := by
            simp [items, hused, List.take_add_one, hn]
          rw [perform_pop_of_used hused hn, hitems, List.getLast?_concat]
          refine ⟨rfl, h.capacity_eq, ?_⟩
          rw [Array.toList_pop, h.items_eq, hitems]
          simp [items]

end Slots

/-- Whatever is asked of a new call stack, it answers as a list of bounded length would, and so
does a row of cells that is never cleared, whatever the cells held at first. -/
theorem behaves_as_bounded_list (capacity : Int) (requests : List (Request α)) :
    let s := operations.after (empty capacity) requests
    let held := contents [] (operations.log (empty capacity) requests)
    (∀ fresh : CallStack α, new capacity = .ok fresh → fresh = empty capacity) ∧
    s.items.toList = held ∧ s.depth = held.length ∧ (s.depth : Int) ≤ max 0 capacity ∧
    (∀ item, operations.perform s (.push item) =
      if capacity ≤ held.length then (.error .overflow, s)
      else (.ok none, ⟨capacity, (held ++ [item]).toArray⟩)) ∧
    operations.perform s .pop =
      (match held.getLast? with
      | none => (.error .underflow, s)
      | some item => (.ok (some item), ⟨capacity, held.dropLast.toArray⟩)) ∧
    ∀ cells : Vector α capacity.toNat,
      Slots.operations.log (.unused cells) requests = operations.log (empty capacity) requests ∧
      (Slots.operations.after (.unused cells) requests).items = held ∧
      (Slots.operations.after (.unused cells) requests).used = held.length := by
  intro s held
  have hitems : s.items.toList = held := toList_after (empty capacity) requests
  have hdepth : s.depth = held.length := by rw [← hitems, Array.length_toList]; rfl
  have hwithin : s.Within capacity := within_empty.after requests
  refine ⟨fun _ => eq_empty_of_new, hitems, hdepth, hwithin.depth_le, fun item => ?_, ?_,
    fun cells => ?_⟩
  · rw [perform_push, hwithin.capacity_eq, hdepth, ← hitems, ← Array.toList_push]
  · rw [perform_pop, hwithin.capacity_eq, ← hitems, Array.getLast?_toList, ← Array.toList_pop]
  · have hsame : (Slots.unused cells).Shows (empty capacity) := ⟨rfl, rfl⟩
    obtain ⟨hlog, hshows⟩ := Operations.simulates (fun _ _ r h => h.perform r) requests hsame
    exact ⟨hlog, hshows.items_eq.symm.trans hitems, hshows.depth_eq.symm.trans hdepth⟩

end Chip8.CallStack
