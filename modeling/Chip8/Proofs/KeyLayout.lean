import Chip8.KeyLayout
import Mathlib.Data.List.Forall2
import Mathlib.Data.List.Nodup

/-!
# Which layouts are accepted

A layout is read part by part. The first part that is no code, or whose code was read
before, decides the error, and what follows it is not looked at.

A layout that is not folded is either accepted or refused with an error of its own.
In a folded one a code may have no lower-case form, because no character has it or
because the form of its character is longer, and that error is passed on as it is.
-/
namespace Chip8

namespace Text

/-- The code of a character whose lower-case form is one character too. -/
def HasLowercase (code : Int) : Prop := 0 ≤ code ∧ code < 0x110000 ∧ code ≠ 0x130

theorem lowercase_of_not_hasLowercase {code : Int} (h : ¬ HasLowercase code) :
    ∃ e, lowercase code = .error e := by
  unfold lowercase
  by_cases hwide : code < -0x80000000 ∨ 0x80000000 ≤ code
  · exact ⟨.tooWide, if_pos hwide⟩
  rw [if_neg hwide]
  by_cases hnone : code < 0 ∨ 0x110000 ≤ code
  · exact ⟨.noCharacter, if_pos hnone⟩
  rw [if_neg hnone]
  have hlong : code = 0x130 := by
    unfold HasLowercase at h
    omega
  exact ⟨.expands 2, if_pos hlong⟩

theorem lowercase_of_hasLowercase {code : Int} (h : HasLowercase code) :
    ∃ folded, lowercase code = .ok folded := by
  obtain ⟨hlow, hhigh, hshort⟩ := h
  have hnarrow : ¬ (code < -0x80000000 ∨ 0x80000000 ≤ code) := by omega
  have hcharacter : ¬ (code < 0 ∨ 0x110000 ≤ code) := by omega
  unfold lowercase
  rw [if_neg hnarrow, if_neg hcharacter, if_neg hshort]
  cases caseRanges.find? fun r => r.holds code.toNat with
  | none => exact ⟨code, rfl⟩
  | some r => exact ⟨code + r.shift, rfl⟩

theorem lowercase_fails_iff {code : Int} :
    (∃ e, lowercase code = .error e) ↔ ¬ HasLowercase code := by
  constructor
  · rintro ⟨e, he⟩ h
    obtain ⟨folded, hfolded⟩ := lowercase_of_hasLowercase h
    rw [hfolded] at he
    cases he
  · exact lowercase_of_not_hasLowercase

end Text

namespace KeyLayout

def parts (text : String) : List (List Char) := text.toList.splitOn ','

variable {folded : Bool} {part : List Char} {earlier written : List (List Char)}
  {seen codes : List Int} {text : String}

/-- Each part reads as the code in its place. -/
def Read (folded : Bool) (parts : List (List Char)) (codes : List Int) : Prop :=
  List.Forall₂ (fun part code => readCode folded part = .ok code) parts codes

theorem readCodes_cons_of_error {e : Error} (h : readCode folded part = .error e)
    (later : List (List Char)) : readCodes folded seen (part :: later) = .error e := by
  unfold readCodes
  rw [h]
  rfl

theorem readCodes_cons_of_repeated {code : Int} (h : readCode folded part = .ok code)
    (hseen : code ∈ seen) (later : List (List Char)) :
    readCodes folded seen (part :: later) = .error .repeated := by
  unfold readCodes
  rw [h]
  exact if_pos hseen

theorem readCodes_cons_of_new {code : Int} (h : readCode folded part = .ok code)
    (hseen : code ∉ seen) (later : List (List Char)) :
    readCodes folded seen (part :: later) = readCodes folded (seen ++ [code]) later := by
  conv_lhs => unfold readCodes
  rw [h]
  exact if_neg hseen

theorem readCodes_append (h : readCodes folded seen earlier = .ok codes)
    (later : List (List Char)) :
    readCodes folded seen (earlier ++ later) = readCodes folded codes later := by
  induction earlier generalizing seen with
  | nil =>
      obtain rfl : seen = codes := Except.ok.inj h
      rfl
  | cons part earlier ih =>
      cases hpart : readCode folded part with
      | error e =>
          rw [readCodes_cons_of_error hpart] at h
          cases h
      | ok code =>
          by_cases hseen : code ∈ seen
          · rw [readCodes_cons_of_repeated hpart hseen] at h
            cases h
          · rw [readCodes_cons_of_new hpart hseen] at h
            rw [List.cons_append, readCodes_cons_of_new hpart hseen]
            exact ih h

/-- The codes are read if every part is one and none is read twice. -/
theorem readCodes_eq_ok_iff :
    readCodes folded seen written = .ok codes ↔
      ∃ new, codes = seen ++ new ∧ Read folded written new ∧ new.Nodup ∧ new.Disjoint seen := by
  induction written generalizing seen with
  | nil =>
      constructor
      · intro h
        obtain rfl : seen = codes := Except.ok.inj h
        exact ⟨[], (List.append_nil seen).symm, .nil, .nil, List.disjoint_nil_left seen⟩
      · rintro ⟨new, rfl, hread, -, -⟩
        cases hread
        rw [List.append_nil]
        rfl
  | cons part written ih =>
      constructor
      · intro h
        cases hpart : readCode folded part with
        | error e =>
            rw [readCodes_cons_of_error hpart] at h
            cases h
        | ok code =>
            by_cases hseen : code ∈ seen
            · rw [readCodes_cons_of_repeated hpart hseen] at h
              cases h
            · rw [readCodes_cons_of_new hpart hseen] at h
              obtain ⟨new, rfl, hread, hnodup, hnew⟩ := ih.mp h
              rw [List.disjoint_append_right, List.disjoint_singleton] at hnew
              refine ⟨code :: new, ?_, .cons hpart hread, ?_, ?_⟩
              · rw [List.append_assoc, List.singleton_append]
              · exact List.nodup_cons.mpr ⟨hnew.2, hnodup⟩
              · exact List.disjoint_cons_left.mpr ⟨hseen, hnew.1⟩
      · rintro ⟨new, rfl, hread, hnodup, hnew⟩
        cases hread with
        | @cons _ code _ new hpart hread =>
            obtain ⟨hcode, hnodup⟩ := List.nodup_cons.mp hnodup
            obtain ⟨hseen, hnew⟩ := List.disjoint_cons_left.mp hnew
            rw [readCodes_cons_of_new hpart hseen, ih]
            refine ⟨new, ?_, hread, hnodup, ?_⟩
            · rw [List.append_assoc, List.singleton_append]
            · rw [List.disjoint_append_right, List.disjoint_singleton]
              exact ⟨hnew, hcode⟩

theorem readCodes_nil_eq_ok_iff :
    readCodes folded [] written = .ok codes ↔ Read folded written codes ∧ codes.Nodup := by
  rw [readCodes_eq_ok_iff]
  constructor
  · rintro ⟨new, rfl, hread, hnodup, -⟩
    exact ⟨hread, hnodup⟩
  · rintro ⟨hread, hnodup⟩
    exact ⟨codes, rfl, hread, hnodup, List.disjoint_nil_right codes⟩

/-- The first part that is refused decides the error. -/
theorem readCodes_eq_error_iff {e : Error} :
    readCodes folded seen written = .error e ↔
      ∃ earlier part later codes,
        written = earlier ++ part :: later ∧ readCodes folded seen earlier = .ok codes ∧
          (readCode folded part = .error e ∨
            e = .repeated ∧ ∃ code ∈ codes, readCode folded part = .ok code) := by
  constructor
  · intro h
    induction written generalizing seen with
    | nil => cases h
    | cons part written ih =>
        cases hpart : readCode folded part with
        | error e' =>
            rw [readCodes_cons_of_error hpart] at h
            cases h
            exact ⟨[], part, written, seen, rfl, rfl, .inl hpart⟩
        | ok code =>
            by_cases hseen : code ∈ seen
            · rw [readCodes_cons_of_repeated hpart hseen] at h
              cases h
              exact ⟨[], part, written, seen, rfl, rfl, .inr ⟨rfl, code, hseen, hpart⟩⟩
            · rw [readCodes_cons_of_new hpart hseen] at h
              obtain ⟨earlier, refused, later, codes, rfl, hearlier, hrefused⟩ := ih h
              refine ⟨part :: earlier, refused, later, codes, rfl, ?_, hrefused⟩
              rw [readCodes_cons_of_new hpart hseen]
              exact hearlier
  · rintro ⟨earlier, part, later, codes, rfl, hearlier, hpart | ⟨rfl, code, hseen, hpart⟩⟩
    · rw [readCodes_append hearlier, readCodes_cons_of_error hpart]
    · rw [readCodes_append hearlier, readCodes_cons_of_repeated hpart hseen]

theorem readCode_of_unfoldable {code : Int} {e : Text.CaseError}
    (hcode : Text.readInt? part = some code) (he : Text.lowercase code = .error e) :
    readCode true part = .error (.unfoldable e) := by
  unfold readCode
  simp only [hcode, he]
  rfl

theorem of_readCode_unfoldable {e : Text.CaseError}
    (h : readCode folded part = .error (.unfoldable e)) :
    folded = true ∧ ∃ code, Text.readInt? part = some code ∧ Text.lowercase code = .error e := by
  unfold readCode at h
  split at h
  · cases h
  · rename_i code hcode
    split at h
    · rename_i hfolded
      split at h
      · cases h
      · rename_i hlower
        cases h
        exact ⟨hfolded, code, hcode, hlower⟩
    · cases h

theorem parse_of_count (h : (parts text).length = keyCount) :
    parse folded text = (readCodes folded [] (parts text)).map KeyLayout.mk := if_pos h

theorem parse_of_wrongCount (h : (parts text).length ≠ keyCount) :
    parse folded text = .error .wrongCount := if_neg h

theorem parse_eq_ok_iff {l : KeyLayout} :
    parse folded text = .ok l ↔
      (parts text).length = keyCount ∧ Read folded (parts text) l.codes ∧ l.codes.Nodup := by
  by_cases hcount : (parts text).length = keyCount
  · rw [parse_of_count hcount]
    constructor
    · intro h
      cases hcodes : readCodes folded [] (parts text) with
      | error e =>
          rw [hcodes] at h
          cases h
      | ok codes =>
          rw [hcodes] at h
          cases h
          exact ⟨hcount, readCodes_nil_eq_ok_iff.mp hcodes⟩
    · rintro ⟨-, hread⟩
      rw [readCodes_nil_eq_ok_iff.mpr hread]
      rfl
  · rw [parse_of_wrongCount hcount]
    exact ⟨nofun, fun h => (hcount h.1).elim⟩

theorem parse_eq_error_iff {e : Error} :
    parse folded text = .error e ↔
      (parts text).length ≠ keyCount ∧ e = .wrongCount ∨
        (parts text).length = keyCount ∧ readCodes folded [] (parts text) = .error e := by
  by_cases hcount : (parts text).length = keyCount
  · rw [parse_of_count hcount]
    cases readCodes folded [] (parts text) <;> simp [Except.map, hcount]
  · rw [parse_of_wrongCount hcount]
    simp [hcount, eq_comm]

/-- Reading gets as far as a part that is an integer without a lower-case form. -/
def Unfoldable (text : String) : Prop :=
  (parts text).length = keyCount ∧
    ∃ earlier part later codes code,
      parts text = earlier ++ part :: later ∧ Read true earlier codes ∧ codes.Nodup ∧
        Text.readInt? part = some code ∧ ¬ Text.HasLowercase code

theorem parse_unfoldable_iff :
    (∃ e, parse folded text = .error (.unfoldable e)) ↔ folded = true ∧ Unfoldable text := by
  constructor
  · rintro ⟨e, he⟩
    rcases parse_eq_error_iff.mp he with ⟨-, hwrong⟩ | ⟨hcount, hread⟩
    · cases hwrong
    obtain ⟨earlier, part, later, codes, hparts, hearlier, hpart | ⟨hrepeated, -⟩⟩ :=
      readCodes_eq_error_iff.mp hread
    · obtain ⟨rfl, code, hcode, hlower⟩ := of_readCode_unfoldable hpart
      obtain ⟨hread, hnodup⟩ := readCodes_nil_eq_ok_iff.mp hearlier
      exact ⟨rfl, hcount, earlier, part, later, codes, code, hparts, hread, hnodup, hcode,
        Text.lowercase_fails_iff.mp ⟨e, hlower⟩⟩
    · cases hrepeated
  · rintro ⟨rfl, hcount, earlier, part, later, codes, code, hparts, hread, hnodup, hcode, hnone⟩
    obtain ⟨e, he⟩ := Text.lowercase_fails_iff.mpr hnone
    have hearlier : readCodes true [] earlier = .ok codes :=
      readCodes_nil_eq_ok_iff.mpr ⟨hread, hnodup⟩
    refine ⟨e, parse_eq_error_iff.mpr (.inr ⟨hcount, ?_⟩)⟩
    rw [hparts, readCodes_append hearlier]
    exact readCodes_cons_of_error (readCode_of_unfoldable hcode he) later

/-- Errors of a layout itself. The others come out of the folding. -/
def Error.IsOwn : Error → Prop
  | unfoldable _ => False
  | wrongCount | notInteger | repeated => True

/-- A text is read as a layout of all the keys or refused with an error of the layout,
unless it is folded and holds a code that cannot be. -/
theorem parse_reports_iff (folded : Bool) (text : String) :
    ((∃ l, parse folded text = .ok l ∧ l.codes.Nodup ∧ l.table.length = keyCount) ∨
        ∃ e, parse folded text = .error e ∧ e.IsOwn) ↔
      ¬ (folded = true ∧ Unfoldable text) := by
  rw [← parse_unfoldable_iff]
  cases hparse : parse folded text with
  | ok l =>
      obtain ⟨hcount, hread, hnodup⟩ := parse_eq_ok_iff.mp hparse
      have htable : l.table.length = keyCount := by
        rw [table, List.length_zipIdx, ← hread.length_eq, hcount]
      constructor
      · rintro - ⟨e, he⟩
        cases he
      · exact fun _ => .inl ⟨l, rfl, hnodup, htable⟩
  | error e =>
      constructor
      · rintro (⟨l, hl, -⟩ | ⟨_, ⟨rfl⟩, hown⟩) ⟨e', he'⟩
        · cases hl
        · cases he'
          exact hown
      · intro hnone
        refine .inr ⟨e, rfl, ?_⟩
        cases e with
        | unfoldable e' => exact hnone ⟨e', rfl⟩
        | wrongCount | notInteger | repeated => trivial

theorem code_below_zero_is_not_reported :
    let text := "-1,49,50,51,113,119,101,97,115,100,122,99,52,114,102,118"
    parse true text = .error (.unfoldable .noCharacter) ∧
      ¬ ((∃ l, parse true text = .ok l ∧ l.table.length = keyCount) ∨
        ∃ e, parse true text = .error e ∧ e.IsOwn) := by
  intro text
  have hparse : parse true text = .error (.unfoldable .noCharacter) := by decide +kernel
  refine ⟨hparse, ?_⟩
  rw [hparse]
  rintro (⟨l, hl, -⟩ | ⟨e, he, hown⟩)
  · cases hl
  · cases he
    exact hown

end KeyLayout
end Chip8
