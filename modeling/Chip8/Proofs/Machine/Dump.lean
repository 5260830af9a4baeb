import Chip8.Machine.Report
import Chip8.Proofs.Text.Hex
import Mathlib.Data.List.Induction

/-!
# What a dump tells

A dump is the state line of a machine and its call stack. The registers take up a fixed number
of digits, every other number ends at a mark that it cannot hold, and the return addresses are
as many as the depth says. So two machines with one dump have the same registers, index, timers,
address, opcode and call stack. The least widths of the fields play no part in it: a number that
is too long for its field is still told from what follows.
-/
namespace Chip8
open Text

namespace Machine
variable {m m' : Machine} {instruction : String} {rest rest' : List Char}

structure SameLine (m m' : Machine) : Prop where
  registers : m.v = m'.v
  index : m.i = m'.i
  delay : m.delay = m'.delay
  sound : m.sound = m'.sound
  origin : m.origin = m'.origin
  opcode : m.opcode = m'.opcode

/-- The state line is read from its beginning, and then what follows it is left. -/
theorem stateLine_append_inj
    (h : (m.stateLine instruction).toList ++ rest = (m'.stateLine instruction).toList ++ rest') :
    SameLine m m' ∧ rest = rest' := by
  unfold stateLine at h
  simp only [String.toList_append, List.append_assoc] at h
  obtain ⟨hregisters, h⟩ := hexBytes_append_inj (by simp) (List.append_cancel_left h)
  obtain ⟨hindex, h⟩ := hexField_append_inj ((List.append_right_inj " I: 0x".toList).mp h)
  obtain ⟨hdelay, h⟩ := hexField_append_inj ((List.append_right_inj "DT: 0x".toList).mp h)
  obtain ⟨hsound, h⟩ := hexField_append_inj ((List.append_right_inj "ST: 0x".toList).mp h)
  obtain ⟨horigin, h⟩ := hexField_append_inj ((List.append_right_inj "PC: 0x".toList).mp h)
  obtain ⟨hopcode, h⟩ := hexField_append_inj ((List.append_right_inj "OP: 0x".toList).mp h)
  have hline := (List.append_right_inj "IN: ".toList).mp h
  refine ⟨⟨?_, hindex, hdelay, hsound, horigin, hopcode⟩, List.append_cancel_left hline⟩
  exact Vector.toList_inj.mp (List.reverse_inj.mp hregisters)

def addressesText (addresses : List Int) : String :=
  String.join (addresses.map fun a => " 0x" ++ hexField 3 a)

theorem addressesText_snoc (addresses : List Int) (a : Int) :
    addressesText (addresses ++ [a]) =
      addressesText addresses ++ " 0" ++ "x" ++ hexField 3 a := by
  have hmark : " 0x" = " 0" ++ "x" := by decide
  unfold addressesText
  rw [List.map_append, String.join_append, List.map_singleton, String.join_cons, String.join_nil,
    String.append_empty, hmark]
  simp only [String.append_assoc]

theorem addressesText_inj {l l' : List Int} (hlength : l.length = l'.length)
    (h : addressesText l = addressesText l') : l = l' := by
  -- The last address comes first: nothing marks the end of one, but a mark stands before it.
  induction l using List.reverseRecOn generalizing l' with
  | nil => exact (List.length_eq_zero_iff.mp hlength.symm).symm
  | append_singleton l a ih =>
      cases l' using List.reverseRecOn with
      | nil => simp at hlength
      | append_singleton l' a' =>
          rw [addressesText_snoc, addressesText_snoc] at h
          obtain ⟨hfront, rfl⟩ := append_hexField_inj h
          rw [ih (by simpa using hlength) ((String.append_left_inj " 0").mp hfront)]

theorem items_of_stackLines (h : m.stackLines = m'.stackLines) :
    m.stack.items = m'.stack.items := by
  have htext := congrArg String.toList h
  unfold stackLines at htext
  simp only [String.toList_append, List.append_assoc] at htext
  have hbreak : '\n'.isDigit = false := by decide
  obtain ⟨hdepth, hstack⟩ :=
    decimals_append_inj hbreak ((List.append_right_inj "SP: ".toList).mp htext)
  have haddresses := String.toList_inj.mp ((List.append_right_inj "Stack:".toList).mp hstack)
  have hlength : m.stack.items.toList.length = m'.stack.items.toList.length := hdepth
  rw [← Array.toList_inj]
  generalize m.stack.items.toList = l at hlength haddresses ⊢
  generalize m'.stack.items.toList = l' at hlength haddresses ⊢
  -- The depth is told first, so the word that stands for no addresses is on both sides or on none.
  cases l with
  | nil => exact (List.length_eq_zero_iff.mp hlength.symm).symm
  | cons a l =>
      obtain ⟨a', l', rfl⟩ := List.exists_cons_of_length_eq_add_one hlength.symm
      exact addressesText_inj hlength haddresses

/-- A dump loses nothing of what it shows: any two machines with one dump, reachable or not, have
the same registers, index, timers, address, opcode and call stack. -/
theorem dump_eq_iff (m m' : Machine) (instruction : String) :
    m.dump instruction = m'.dump instruction ↔
      m.v = m'.v ∧ m.i = m'.i ∧ m.delay = m'.delay ∧ m.sound = m'.sound ∧
        m.origin = m'.origin ∧ m.opcode = m'.opcode ∧
        m.stack.depth = m'.stack.depth ∧ m.stack.items = m'.stack.items := by
  constructor
  · intro h
    have htext := congrArg String.toList h
    unfold dump at htext
    simp only [String.toList_append, List.append_assoc] at htext
    obtain ⟨hline, hrest⟩ := stateLine_append_inj htext
    have hstack := String.toList_inj.mp ((List.append_right_inj "\n".toList).mp hrest)
    have hitems := items_of_stackLines hstack
    exact ⟨hline.registers, hline.index, hline.delay, hline.sound, hline.origin, hline.opcode,
      congrArg Array.size hitems, hitems⟩
  · rintro ⟨hv, hi, hdelay, hsound, horigin, hopcode, -, hitems⟩
    unfold dump stateLine stackLines CallStack.depth
    rw [hv, hi, hdelay, hsound, horigin, hopcode, hitems]

end Machine
end Chip8
