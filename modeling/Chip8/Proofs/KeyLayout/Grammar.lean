import Chip8.Proofs.KeyLayout
import Mathlib.Data.Option.Basic

/-!
# The grammar of layouts

A text is a layout if it has one part for each key, every part stands for a code, and no two
parts stand for the same one. Read plainly a part stands for the integer that it is, and read
folded for the lower-case form of that integer. Codes are compared as numbers: two spellings
of one integer repeat it, and so do the two cases of a letter in a folded layout.

The parts are read in order. A text that has the right number of them is refused for the first
part that stands for no code or repeats an earlier one.
-/
namespace Chip8.KeyLayout

def foldedCode? (part : List Char) : Option Int :=
  (Text.readInt? part).bind fun code => (Text.lowercase code).toOption

/-- The parts stand for codes, and for different ones. -/
def Distinct (code? : List Char → Option Int) (parts : List (List Char)) : Prop :=
  (∀ part ∈ parts, (code? part).isSome) ∧ (parts.map code?).Nodup

/-- What a part is refused for that comes after these. -/
inductive Refused (code? : List Char → Option Int) (earlier : List (List Char))
    (part : List Char) : Error → Prop
  | notInteger : code? part = none → Refused code? earlier part .notInteger
  | repeated {code : Int} {before : List Char} : code? part = some code → before ∈ earlier →
      code? before = some code → Refused code? earlier part .repeated

/-- The result of reading a text is the layout that the text is, or tells why it is none.
Which code a part stands for is told by `code?`. -/
structure Recognizes (code? : List Char → Option Int) (text : String)
    (result : Except Error KeyLayout) : Prop where
  accepted : (∃ l, result = .ok l) ↔ (parts text).length = 16 ∧ Distinct code? (parts text)
  table : ∀ l, result = .ok l → l.table.length = 16 ∧
    ∀ (k : Nat) part, (parts text)[k]? = some part →
      ∃ code, code? part = some code ∧ l.table[k]? = some (code, k)
  miscounted : (parts text).length ≠ 16 → result = .error .wrongCount
  refused : (parts text).length = 16 → ∀ e, result = .error e ↔
    ∃ earlier part later, parts text = earlier ++ part :: later ∧
      Distinct code? earlier ∧ Refused code? earlier part e

variable {code? : List Char → Option Int} {folded : Bool} {text : String}
  {written : List (List Char)} {codes : List Int}

/-- Reading a part gives its code, or it is no integer. -/
def Reads (code? : List Char → Option Int) (folded : Bool) (part : List Char) : Prop :=
  readCode folded part = (code? part).elim (.error .notInteger) .ok

section
variable {part : List Char}

theorem Reads.eq_ok_iff (h : Reads code? folded part) {code : Int} :
    readCode folded part = .ok code ↔ code? part = some code := by
  rw [h]
  cases code? part <;> simp

theorem Reads.eq_error_iff (h : Reads code? folded part) {e : Error} :
    readCode folded part = .error e ↔ code? part = none ∧ e = .notInteger := by
  rw [h]
  cases code? part <;> simp [eq_comm]

theorem reads_plain (part : List Char) : Reads Text.readInt? false part := by
  unfold Reads readCode
  cases Text.readInt? part <;> rfl

theorem reads_folded
    (h : ∀ code, Text.readInt? part = some code → ∃ lower, Text.lowercase code = .ok lower) :
    Reads foldedCode? true part := by
  unfold Reads readCode foldedCode?
  cases hcode : Text.readInt? part with
  | none => rfl
  | some code =>
      obtain ⟨lower, hlower⟩ := h code hcode
      simp only [hlower, if_true, Option.bind_some]
      rfl

end

theorem read_iff_map (h : ∀ part ∈ written, Reads code? folded part) :
    Read folded written codes ↔ written.map code? = codes.map some := by
  induction written generalizing codes with
  | nil => cases codes <;> simp [Read]
  | cons part written ih =>
      obtain ⟨hpart, hwritten⟩ := List.forall_mem_cons.mp h
      cases codes with
      | nil => simp [Read]
      | cons code codes =>
          have hrest : Read folded written codes ↔ _ := ih hwritten
          unfold Read at hrest ⊢
          rw [List.forall₂_cons, hpart.eq_ok_iff, hrest, List.map_cons, List.map_cons,
            List.cons.injEq]

theorem exists_map_some_iff :
    (∀ part ∈ written, (code? part).isSome) ↔
      ∃ codes : List Int, written.map code? = codes.map some := by
  induction written with
  | nil => exact ⟨fun _ => ⟨[], rfl⟩, fun _ => nofun⟩
  | cons part written ih =>
      rw [List.forall_mem_cons, ih]
      constructor
      · rintro ⟨hpart, codes, hcodes⟩
        obtain ⟨code, hcode⟩ := Option.isSome_iff_exists.mp hpart
        exact ⟨code :: codes, by rw [List.map_cons, List.map_cons, hcode, hcodes]⟩
      · rintro ⟨codes, hcodes⟩
        cases codes with
        | nil => cases hcodes
        | cons code codes =>
            obtain ⟨hpart, hrest⟩ := List.cons.inj hcodes
            exact ⟨by rw [hpart]; rfl, codes, hrest⟩

theorem exists_read_iff (h : ∀ part ∈ written, Reads code? folded part) :
    (∃ codes, Read folded written codes ∧ codes.Nodup) ↔ Distinct code? written := by
  unfold Distinct
  rw [exists_map_some_iff]
  simp only [read_iff_map h]
  constructor
  · rintro ⟨codes, hcodes, hnodup⟩
    exact ⟨⟨codes, hcodes⟩, hcodes ▸ hnodup.map (Option.some_injective Int)⟩
  · rintro ⟨⟨codes, hcodes⟩, hnodup⟩
    exact ⟨codes, hcodes, .of_map some (hcodes ▸ hnodup)⟩

/-- A part is refused by itself or for a code that was read before. -/
theorem refused_iff {part : List Char} {e : Error} (hpart : Reads code? folded part)
    (hcodes : written.map code? = codes.map some) :
    (readCode folded part = .error e ∨
        e = .repeated ∧ ∃ code ∈ codes, readCode folded part = .ok code) ↔
      Refused code? written part e := by
  have hmem (code : Int) : code ∈ codes ↔ ∃ before ∈ written, code? before = some code := by
    rw [← List.mem_map, hcodes, List.mem_map_of_injective (Option.some_injective Int)]
  simp only [hpart.eq_error_iff, hpart.eq_ok_iff, hmem]
  constructor
  · rintro (⟨hnone, rfl⟩ | ⟨rfl, code, ⟨before, hbefore, hsame⟩, hcode⟩)
    · exact .notInteger hnone
    · exact .repeated hcode hbefore hsame
  · rintro (hnone | ⟨hcode, hbefore, hsame⟩)
    · exact .inl ⟨hnone, rfl⟩
    · exact .inr ⟨rfl, _, ⟨_, hbefore, hsame⟩, hcode⟩

/-- The first part that is refused decides the error, and no earlier one was. -/
theorem readCodes_nil_eq_error_iff (h : ∀ part ∈ written, Reads code? folded part) {e : Error} :
    readCodes folded [] written = .error e ↔
      ∃ earlier part later, written = earlier ++ part :: later ∧
        Distinct code? earlier ∧ Refused code? earlier part e := by
  rw [readCodes_eq_error_iff]
  constructor
  · rintro ⟨earlier, part, later, codes, rfl, hearlier, hrefused⟩
    obtain ⟨hbefore, hpart, -⟩ := List.forall_mem_append.mp h |>.imp_right List.forall_mem_cons.mp
    obtain ⟨hread, hnodup⟩ := readCodes_nil_eq_ok_iff.mp hearlier
    have hdistinct := (exists_read_iff hbefore).mp ⟨codes, hread, hnodup⟩
    exact ⟨earlier, part, later, rfl, hdistinct,
      (refused_iff hpart ((read_iff_map hbefore).mp hread)).mp hrefused⟩
  · rintro ⟨earlier, part, later, rfl, hdistinct, hrefused⟩
    obtain ⟨hbefore, hpart, -⟩ := List.forall_mem_append.mp h |>.imp_right List.forall_mem_cons.mp
    obtain ⟨codes, hread, hnodup⟩ := (exists_read_iff hbefore).mpr hdistinct
    exact ⟨earlier, part, later, codes, rfl, readCodes_nil_eq_ok_iff.mpr ⟨hread, hnodup⟩,
      (refused_iff hpart ((read_iff_map hbefore).mp hread)).mpr hrefused⟩

theorem recognizes_of_reads (h : ∀ part ∈ parts text, Reads code? folded part) :
    Recognizes code? text (parse folded text) where
  accepted := by
    rw [← exists_read_iff h]
    constructor
    · rintro ⟨l, hl⟩
      obtain ⟨hcount, hread, hnodup⟩ := parse_eq_ok_iff.mp hl
      exact ⟨hcount, l.codes, hread, hnodup⟩
    · rintro ⟨hcount, codes, hread, hnodup⟩
      exact ⟨⟨codes⟩, parse_eq_ok_iff.mpr ⟨hcount, hread, hnodup⟩⟩
  table := by
    intro l hl
    obtain ⟨hcount, hread, -⟩ := parse_eq_ok_iff.mp hl
    have hcodes := (read_iff_map h).mp hread
    refine ⟨by rw [KeyLayout.table, List.length_zipIdx, ← hread.length_eq, hcount, keyCount], ?_⟩
    intro k part hpart
    have hkey := congrArg (·[k]?) hcodes
    simp only [List.getElem?_map, hpart, Option.map_some] at hkey
    obtain ⟨code, hcode, hsome⟩ := Option.map_eq_some_iff.mp hkey.symm
    refine ⟨code, hsome.symm, ?_⟩
    rw [KeyLayout.table, List.getElem?_zipIdx, hcode, Option.map_some, Nat.zero_add]
  miscounted hcount := parse_of_wrongCount hcount
  refused hcount e := by
    rw [← readCodes_nil_eq_error_iff h, parse_eq_error_iff]
    constructor
    · rintro (⟨hwrong, -⟩ | ⟨-, hread⟩)
      · exact (hwrong hcount).elim
      · exact hread
    · exact fun hread => .inr ⟨hcount, hread⟩

/-- Reading accepts exactly the layouts and refuses every other text for its first mistake.
In a folded layout this holds where every integer has a lower-case form. -/
theorem parse_recognizes_layouts (text : String) :
    Recognizes Text.readInt? text (parse false text) ∧
      ((∀ part ∈ parts text, ∀ code, Text.readInt? part = some code →
          ∃ lower, Text.lowercase code = .ok lower) →
        Recognizes foldedCode? text (parse true text)) := by
  refine ⟨recognizes_of_reads fun part _ => reads_plain part, ?_⟩
  exact fun hlower => recognizes_of_reads fun part hpart => reads_folded (hlower part hpart)

/-- The codes of A and a are different, and fold to the same. -/
theorem capital_repeats_small_letter :
    let text := "65, 97,+2,1_0,113,119,101,98,115,100,122,99,52,114,102,118"
    (∀ part ∈ parts text, ∀ code, Text.readInt? part = some code →
        ∃ lower, Text.lowercase code = .ok lower) ∧
      (∃ l, parse false text = .ok l ∧ l.table[3]? = some (10, 3)) ∧
      parse true text = .error .repeated := by
  intro text
  have hparts : parts text = ["65", " 97", "+2", "1_0", "113", "119", "101", "98", "115", "100",
      "122", "99", "52", "114", "102", "118"].map String.toList := by decide +kernel
  have hcodes : (parts text).map Text.readInt? =
      [65, 97, 2, 10, 113, 119, 101, 98, 115, 100, 122, 99, 52, 114, 102, 118].map some := by
    rw [hparts]
    decide +kernel
  have hcount : (parts text).length = 16 := congrArg List.length hparts
  have hlower (part : List Char) (hpart : part ∈ parts text) (code : Int)
      (hcode : Text.readInt? part = some code) : ∃ lower, Text.lowercase code = .ok lower := by
    have hmem : some code ∈ (parts text).map Text.readInt? := hcode ▸ List.mem_map_of_mem hpart
    rw [hcodes, List.mem_map_of_injective (Option.some_injective Int)] at hmem
    simp only [List.mem_cons, List.not_mem_nil, or_false] at hmem
    exact Text.lowercase_of_hasLowercase ⟨by omega, by omega, by omega⟩
  obtain ⟨hplain, hfolded⟩ := parse_recognizes_layouts text
  refine ⟨hlower, ?_, ?_⟩
  · have hdistinct : Distinct Text.readInt? (parts text) :=
      ⟨exists_map_some_iff.mpr ⟨_, hcodes⟩, by rw [hcodes]; decide⟩
    obtain ⟨l, hl⟩ := hplain.accepted.mpr ⟨hcount, hdistinct⟩
    obtain ⟨code, hcode, hkey⟩ := (hplain.table l hl).2 3 "1_0".toList (by rw [hparts]; rfl)
    have hten : Text.readInt? "1_0".toList = some 10 := by decide +kernel
    obtain rfl := Option.some.inj (hcode.symm.trans hten)
    exact ⟨l, hl, hkey⟩
  · have hcapital : foldedCode? "65".toList = some 97 := by decide +kernel
    have hsmall : foldedCode? " 97".toList = some 97 := by decide +kernel
    have hfirst : Distinct foldedCode? ["65".toList] :=
      ⟨exists_map_some_iff.mpr ⟨[97], by rw [List.map_cons, hcapital]; rfl⟩, List.nodup_singleton _⟩
    exact ((hfolded hlower).refused hcount .repeated).mpr
      ⟨["65".toList], " 97".toList, (parts text).drop 2, by rw [hparts]; rfl, hfirst,
        .repeated hsmall (.head _) hcapital⟩

end Chip8.KeyLayout
