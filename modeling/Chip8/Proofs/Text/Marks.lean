/-!
# Texts cut at marks

A text that was put together from parts is taken apart again at a mark that the parts do not
hold, at the first such place or at the last. The decimal digits of a number hold no mark, and
they determine the number.
-/
namespace Chip8.Text

/-- A text is cut at the last place where a mark stands. -/
theorem append_mark_inj {c : Char} {before before' rest rest' : List Char} (hrest : c ∉ rest)
    (hrest' : c ∉ rest') (h : before ++ c :: rest = before' ++ c :: rest') :
    before = before' ∧ rest = rest' := by
  have nothing_between {between rest rest' : List Char} (hrest : c ∉ rest)
      (h : c :: rest = between ++ c :: rest') : between = [] := by
    cases between with
    | nil => rfl
    | cons b between =>
        have hmark : c ∈ between ++ c :: rest' := List.mem_append_right between (.head rest')
        exact (hrest ((List.cons.inj h).2 ▸ hmark)).elim
  have hbefore : before = before' := by
    rcases List.append_eq_append_iff.mp h with ⟨between, hlonger, hcut⟩ | ⟨between, hlonger, hcut⟩
    · rw [hlonger, nothing_between hrest hcut, List.append_nil]
    · rw [hlonger, nothing_between hrest' hcut, List.append_nil]
  rw [hbefore] at h
  exact ⟨hbefore, (List.cons.inj (List.append_cancel_left h)).2⟩

/-- A text is cut at the first place where a mark stands. -/
theorem mark_append_inj {c : Char} {before before' rest rest' : List Char} (hbefore : c ∉ before)
    (hbefore' : c ∉ before') (h : before ++ c :: rest = before' ++ c :: rest') :
    before = before' ∧ rest = rest' := by
  have hreverse := congrArg List.reverse h
  simp only [List.reverse_append, List.reverse_cons, List.append_assoc,
    List.singleton_append] at hreverse
  obtain ⟨hrests, hbefores⟩ := append_mark_inj (mt List.mem_reverse.mp hbefore)
    (mt List.mem_reverse.mp hbefore') hreverse
  exact ⟨List.reverse_inj.mp hbefores, List.reverse_inj.mp hrests⟩

theorem toList_decimals (n : Nat) : (toString n).toList = Nat.toDigits 10 n := by
  rw [Nat.toString_eq_ofList_toDigits, String.toList_ofList]

theorem decimals_inj {m n : Nat} (h : (toString m).toList = (toString n).toList) : m = n := by
  rw [toList_decimals, toList_decimals] at h
  calc
    m = Nat.ofDigitChars 10 (Nat.toDigits 10 m) 0 := Nat.ofDigitChars_ten_toDigits.symm
    _ = Nat.ofDigitChars 10 (Nat.toDigits 10 n) 0 := by rw [h]
    _ = n := Nat.ofDigitChars_ten_toDigits

theorem not_mem_decimals {c : Char} (hc : c.isDigit = false) (n : Nat) :
    c ∉ (toString n).toList := by
  rw [toList_decimals]
  intro h
  rw [Nat.isDigit_of_mem_toDigits (by decide) (by decide) h] at hc
  cases hc

/-- A number in decimals ends where the next mark is. -/
theorem decimals_append_inj {c : Char} (hc : c.isDigit = false) {m n : Nat}
    {rest rest' : List Char}
    (h : (toString m).toList ++ c :: rest = (toString n).toList ++ c :: rest') :
    m = n ∧ rest = rest' := by
  obtain ⟨hnumbers, hrests⟩ := mark_append_inj (not_mem_decimals hc m) (not_mem_decimals hc n) h
  exact ⟨decimals_inj hnumbers, hrests⟩

end Chip8.Text
