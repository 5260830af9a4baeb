import Chip8.Proofs.Text.Marks
import Chip8.Text.Hex

/-!
# Hexadecimal text read back

Digits determine the number they stand for, also behind the zeros that fill a field, and a
sign tells the numbers below zero from the others. So two numbers that are the same text in
fields of one width are the same. A field holds nothing but digits and a sign and is thereby
told from the text in front of it.
-/
namespace Chip8.Text

/-- The number below sixteen that a digit stands for. -/
def digitValue (c : Char) : Nat := if c.toNat < 58 then c.toNat - 48 else c.toNat - 87

/-- The number that digits stand for, the most significant first. -/
def hexValue (digits : List Char) : Nat := digits.foldl (fun v c => 16 * v + digitValue c) 0

theorem digitValue_hexDigit : ∀ n < 16, digitValue (hexDigit n) = n := by decide

theorem hexValue_snoc (digits : List Char) (c : Char) :
    hexValue (digits ++ [c]) = 16 * hexValue digits + digitValue c := by
  simp [hexValue]

theorem hexValue_hexDigits (n : Nat) : hexValue (hexDigits n) = n := by
  fun_induction hexDigits n with
  | case1 n h =>
      show 16 * 0 + digitValue (hexDigit n) = n
      rw [digitValue_hexDigit n h]
      omega
  | case2 n h ih =>
      rw [hexValue_snoc, ih, digitValue_hexDigit _ (Nat.mod_lt n (by decide))]
      omega

theorem hexValue_zeros (k : Nat) (digits : List Char) :
    hexValue (List.replicate k '0' ++ digits) = hexValue digits := by
  induction k with
  | zero => rfl
  | succ k ih => exact ih

theorem exists_of_mem_hexDigits {n : Nat} {c : Char} (h : c ∈ hexDigits n) :
    ∃ d < 16, c = hexDigit d := by
  fun_induction hexDigits n with
  | case1 n hn => exact ⟨n, hn, List.mem_singleton.mp h⟩
  | case2 n hn ih =>
      rcases List.mem_append.mp h with hhigh | hlow
      · exact ih hhigh
      · exact ⟨n % 16, Nat.mod_lt n (by decide), List.mem_singleton.mp hlow⟩

def signText (n : Int) : List Char := if n < 0 then ['-'] else []

/-- The digits of a number in a field, with the zeros in front of them. -/
def filledDigits (width : Nat) (n : Int) : List Char :=
  List.replicate (width - (signText n).length - (hexDigits n.natAbs).length) '0' ++
    hexDigits n.natAbs

theorem toList_hexField (width : Nat) (n : Int) :
    (hexField width n).toList = signText n ++ filledDigits width n := by
  unfold hexField signText filledDigits
  rw [String.toList_ofList, List.append_assoc]
  rfl

theorem hexValue_filledDigits (width : Nat) (n : Int) :
    hexValue (filledDigits width n) = n.natAbs := by
  rw [filledDigits, hexValue_zeros, hexValue_hexDigits]

theorem not_mem_filledDigits {c : Char} (hzero : c ≠ '0') (hdigit : ∀ n < 16, hexDigit n ≠ c)
    (width : Nat) (n : Int) : c ∉ filledDigits width n := by
  intro h
  rcases List.mem_append.mp h with hfill | hdigits
  · exact hzero (List.eq_of_mem_replicate hfill)
  · obtain ⟨d, hd, rfl⟩ := exists_of_mem_hexDigits hdigits
    exact hdigit d hd rfl

theorem minus_mem_hexField_iff {width : Nat} {n : Int} :
    '-' ∈ (hexField width n).toList ↔ n < 0 := by
  have hdigits : '-' ∉ filledDigits width n :=
    not_mem_filledDigits (by decide) (by decide) width n
  rw [toList_hexField, List.mem_append, or_iff_left hdigits, signText]
  split <;> simp_all

theorem hexField_inj {width : Nat} {m n : Int} (h : hexField width m = hexField width n) :
    m = n := by
  have hsign : m < 0 ↔ n < 0 := by
    rw [← @minus_mem_hexField_iff width m, h, minus_mem_hexField_iff]
  have htext := congrArg String.toList h
  have hsigns : signText m = signText n := by simp only [signText, hsign]
  rw [toList_hexField, toList_hexField, hsigns, List.append_cancel_left_eq] at htext
  have hvalue := congrArg hexValue htext
  rw [hexValue_filledDigits, hexValue_filledDigits] at hvalue
  omega

theorem not_mem_hexField {c : Char} (hminus : c ≠ '-') (hzero : c ≠ '0')
    (hdigit : ∀ n < 16, hexDigit n ≠ c) (width : Nat) (n : Int) :
    c ∉ (hexField width n).toList := by
  rw [toList_hexField, List.mem_append, or_iff_left (not_mem_filledDigits hzero hdigit width n),
    signText]
  split <;> simp [hminus]

/-- A number and the text in front of it are read off a text that ends with it. -/
theorem append_hexField_inj {before before' : String} {width : Nat} {n n' : Int}
    (h : before ++ "x" ++ hexField width n = before' ++ "x" ++ hexField width n') :
    before = before' ∧ n = n' := by
  have hx (n : Int) : 'x' ∉ (hexField width n).toList :=
    not_mem_hexField (by decide) (by decide) (by decide) width n
  have hlists := congrArg String.toList h
  rw [String.append_assoc, String.append_assoc] at hlists
  simp only [String.toList_append] at hlists
  obtain ⟨hbefore, hfields⟩ :=
    append_mark_inj (hx n) (hx n') hlists
  exact ⟨String.toList_inj.mp hbefore, hexField_inj (String.toList_inj.mp hfields)⟩

/-- A number is read off a text in which a blank follows it. -/
theorem hexField_append_inj {width : Nat} {n n' : Int} {rest rest' : List Char}
    (h : (hexField width n).toList ++ ' ' :: rest = (hexField width n').toList ++ ' ' :: rest') :
    n = n' ∧ rest = rest' := by
  have hblank (n : Int) : ' ' ∉ (hexField width n).toList :=
    not_mem_hexField (by decide) (by decide) (by decide) width n
  obtain ⟨hfields, hrests⟩ := mark_append_inj (hblank n) (hblank n') h
  exact ⟨hexField_inj (String.toList_inj.mp hfields), hrests⟩

theorem hexValue_hexByte (b : UInt8) : hexValue (hexByte b) = b.toNat := by
  have hb := b.toNat_lt
  show 16 * (16 * 0 + digitValue (hexDigit (b.toNat / 16))) +
    digitValue (hexDigit (b.toNat % 16)) = _
  rw [digitValue_hexDigit _ (by omega), digitValue_hexDigit _ (by omega)]
  omega

theorem hexByte_inj {b b' : UInt8} (h : hexByte b = hexByte b') : b = b' := by
  have hvalue := congrArg hexValue h
  rw [hexValue_hexByte, hexValue_hexByte] at hvalue
  exact UInt8.toNat_inj.mp hvalue

/-- As many bytes as are known are read off a text that begins with them. -/
theorem hexBytes_append_inj {bytes bytes' : List UInt8} {rest rest' : List Char}
    (hlength : bytes.length = bytes'.length)
    (h : (hexBytes bytes).toList ++ rest = (hexBytes bytes').toList ++ rest') :
    bytes = bytes' ∧ rest = rest' := by
  rw [hexBytes, hexBytes, String.toList_ofList, String.toList_ofList] at h
  induction bytes generalizing bytes' with
  | nil =>
      obtain rfl := List.length_eq_zero_iff.mp hlength.symm
      exact ⟨rfl, h⟩
  | cons b bytes ih =>
      obtain ⟨b', bytes', rfl⟩ := List.exists_cons_of_length_eq_add_one hlength.symm
      rw [List.flatMap_cons, List.flatMap_cons, List.append_assoc, List.append_assoc] at h
      obtain ⟨hfirst, hothers⟩ := List.append_inj h rfl
      obtain ⟨rfl, hrests⟩ := ih (Nat.succ.inj hlength) hothers
      rw [hexByte_inj hfirst]
      exact ⟨rfl, hrests⟩

end Chip8.Text
