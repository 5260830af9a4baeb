import Chip8.Proofs.Machine.Step

/-!
# Carrying out one opcode

Whatever integer is at hand, one instruction is carried out, and once, or none is.
Which one it is can be told from the opcode: ten selectors have an instruction of
their own, three look at the last digit and two at the last two, and selector 0
knows two opcodes as a whole. Everything else is passed over with one warning.

Every look-up ends. An alias leads to an instruction or to nothing, never to
another alias, although some opcodes are small enough to be taken for a selector.
-/
namespace Chip8

namespace Instruction

/-- The bits 15 to 12 of an opcode. -/
def selector (opcode : Int) : Nat := (Int.land opcode 0xF000 >>> (12 : Nat)).toNat

def selectorKeys : List Nat := [0x1, 0x2, 0x3, 0x4, 0x6, 0x7, 0xA, 0xB, 0xC, 0xD]

def wholeKeys : List Nat := [0x00E0, 0x00EE]

def digitKeys : List Nat :=
  [0x5000, 0x8000, 0x8001, 0x8002, 0x8003, 0x8004, 0x8005, 0x8006, 0x8007, 0x800E, 0x9000]

def byteKeys : List Nat :=
  [0xE09E, 0xE0A1, 0xF007, 0xF00A, 0xF015, 0xF018, 0xF01E, 0xF029, 0xF033, 0xF055, 0xF065]

/-- The number, if it is one of the keys. -/
def among (keys : List Nat) (n : Int) : Option Nat := keys.find? fun key => n == key

/-- The key under which the instruction of an opcode is listed, if it has one. -/
def slot? (opcode : Int) : Option Nat :=
  if selector opcode ∈ [0x5, 0x8, 0x9] then among digitKeys (Int.land opcode 0xF00F)
  else if selector opcode ∈ [0xE, 0xF] then among byteKeys (Int.land opcode 0xF0FF)
  else if selector opcode = 0x0 then among wholeKeys opcode
  else among selectorKeys (selector opcode)

def Entry.isAlias : Entry → Bool
  | instruction _ => false
  | masked _ | whole => true

variable {opcode : Int} {keys : List Nat} {key limit : Nat} {n : Int}

theorem among_eq_some_iff : among keys n = some key ↔ key ∈ keys ∧ n = key := by
  unfold among
  constructor
  · intro h
    exact ⟨List.mem_of_find?_eq_some h, by simpa using List.find?_some h⟩
  · rintro ⟨hmem, rfl⟩
    cases hfind : keys.find? fun k : Nat => (key : Int) == k with
    | none => simpa using List.find?_eq_none.mp hfind key hmem
    | some k =>
        have hk : key = k := by simpa using List.find?_some hfind
        rw [hk]

theorem among_eq_none_iff : among keys n = none ↔ ∀ key ∈ keys, n ≠ key := by
  unfold among
  simp

theorem selector_eq (opcode : Int) : selector opcode = (Fields.ofOpcode opcode).op.val := by
  have hland : Int.land opcode 0xF000 = (0x1000 * (Fields.ofOpcode opcode).op.val : Nat) := by
    rw [← Fields.masked_by_selector]
    exact Fields.land_eq opcode (by decide)
  unfold selector
  rw [hland, Int.shiftRight_eq_div_pow]
  omega

theorem selector_lt (opcode : Int) : selector opcode < 16 := by
  rw [selector_eq]
  exact Fin.isLt _

/-- An entry that is no alias holds an instruction. -/
theorem exists_instruction (h : (listed? key).map Entry.isAlias = some false) :
    ∃ withFields, listed? key = some (.instruction withFields) := by
  cases hlisted : listed? key with
  | none => simp [hlisted] at h
  | some e =>
      cases e with
      | instruction withFields => exact ⟨withFields, rfl⟩
      | masked | whole => simp [hlisted, Entry.isAlias] at h

theorem instruction_of_mem
    (h : key ∈ selectorKeys ++ wholeKeys ++ digitKeys ++ byteKeys) :
    ∃ withFields, listed? key = some (.instruction withFields) := by
  have hall : ∀ key ∈ selectorKeys ++ wholeKeys ++ digitKeys ++ byteKeys,
      (listed? key).map Entry.isAlias = some false := by decide
  exact exists_instruction (hall key h)

/-- Every alias has a key of one digit. -/
theorem not_isAlias (hkey : 16 ≤ key) {e : Entry} (h : listed? key = some e) :
    e.isAlias = false := by
  unfold listed? at h
  split at h <;> first | omega | (cases h; rfl) | cases h

/-- The look-up of an opcode ends at the instruction listed under a key, or without one. -/
def Finds (opcode : Int) (found : Option Nat) : Prop :=
  (∃ key withFields, found = some key ∧ listed? key = some (.instruction withFields) ∧
      seek opcode 2 (selector opcode) = some (some (withFields (Fields.ofOpcode opcode)))) ∨
    found = none ∧ seek opcode 2 (selector opcode) = some none

theorem finds_among (hkeys : keys ⊆ selectorKeys ++ wholeKeys ++ digitKeys ++ byteKeys)
    (hsent : seek opcode 2 (selector opcode) = seek opcode (limit + 1) key)
    (hrest : key ∉ keys → listed? key = none) : Finds opcode (among keys key) := by
  by_cases hmem : key ∈ keys
  · obtain ⟨withFields, hlisted⟩ := instruction_of_mem (hkeys hmem)
    refine .inl ⟨key, withFields, among_eq_some_iff.mpr ⟨hmem, rfl⟩, hlisted, ?_⟩
    rw [hsent, seek_of_instruction hlisted]
  · refine .inr ⟨among_eq_none_iff.mpr fun k hk heq => ?_, ?_⟩
    · exact hmem (Int.natCast_inj.mp heq ▸ hk)
    · rw [hsent, seek_of_none (hrest hmem)]

theorem finds_by_digit (h : selector opcode ∈ [0x5, 0x8, 0x9]) :
    Finds opcode (among digitKeys (Int.land opcode 0xF00F)) := by
  have hland : Int.land opcode 0xF00F = (Fields.lowWord opcode &&& 0xF00F : Nat) :=
    Fields.land_eq opcode (by decide)
  have hmasked := Fields.masked_by_digit opcode
  have hn := (Fields.ofOpcode opcode).n.isLt
  rw [← selector_eq] at hmasked
  rw [hland]
  apply finds_among
  · decide
  · simp only [List.mem_cons, List.not_mem_nil, or_false] at h
    rcases h with h | h | h <;> rw [h] <;> exact seek_of_masked rfl
  · intro hkey
    have hrange : 0x5000 ≤ Fields.lowWord opcode &&& 0xF00F ∧
        Fields.lowWord opcode &&& 0xF00F < 0xE000 := by
      simp only [List.mem_cons, List.not_mem_nil, or_false] at h
      omega
    generalize Fields.lowWord opcode &&& 0xF00F = key at hkey hrange ⊢
    unfold listed?
    split <;> first | rfl | omega | exact (hkey (by decide)).elim

theorem finds_by_byte (h : selector opcode ∈ [0xE, 0xF]) :
    Finds opcode (among byteKeys (Int.land opcode 0xF0FF)) := by
  have hland : Int.land opcode 0xF0FF = (Fields.lowWord opcode &&& 0xF0FF : Nat) :=
    Fields.land_eq opcode (by decide)
  have hmasked := Fields.masked_by_byte opcode
  rw [← selector_eq] at hmasked
  rw [hland]
  apply finds_among
  · decide
  · simp only [List.mem_cons, List.not_mem_nil, or_false] at h
    rcases h with h | h <;> rw [h] <;> exact seek_of_masked rfl
  · intro hkey
    have hrange : 0xE000 ≤ Fields.lowWord opcode &&& 0xF0FF := by
      simp only [List.mem_cons, List.not_mem_nil, or_false] at h
      omega
    generalize Fields.lowWord opcode &&& 0xF0FF = key at hkey hrange ⊢
    unfold listed?
    split <;> first | rfl | omega | exact (hkey (by decide)).elim

theorem finds_as_whole (h : selector opcode = 0x0) :
    Finds opcode (among wholeKeys opcode) := by
  have hsent := seek_whole opcode 1
  rw [← h] at hsent
  by_cases hsmall : opcode < 0x10
  · rw [if_pos hsmall] at hsent
    refine .inr ⟨among_eq_none_iff.mpr fun key hkey heq => ?_, hsent⟩
    have hlarge : ∀ key ∈ wholeKeys, 0x10 ≤ key := by decide
    have := hlarge key hkey
    omega
  · rw [if_neg hsmall] at hsent
    have hzero : (opcode % 65536).toNat / 4096 % 16 = 0 := by
      rw [← h, selector_eq]
      rfl
    obtain ⟨key, rfl⟩ := Int.eq_ofNat_of_zero_le (by omega : 0 ≤ opcode)
    apply finds_among
    · decide
    · exact hsent
    · intro hkey
      unfold listed?
      split <;> first | rfl | omega | exact (hkey (by decide)).elim

theorem finds_by_selector (h : selector opcode ∉ [0x5, 0x8, 0x9])
    (h' : selector opcode ∉ [0xE, 0xF]) (hzero : selector opcode ≠ 0x0) :
    Finds opcode (among selectorKeys (selector opcode)) := by
  apply finds_among
  · decide
  · rfl
  · intro hkey
    have hall : ∀ t : Fin 16, t.val ∉ [0x5, 0x8, 0x9] → t.val ∉ [0xE, 0xF] → t.val ≠ 0x0 →
        t.val ∈ selectorKeys := by decide
    exact (hkey (hall ⟨_, selector_lt opcode⟩ h h' hzero)).elim

theorem finds_slot (opcode : Int) : Finds opcode (slot? opcode) := by
  unfold slot?
  split_ifs with hdigit hbyte hzero
  · exact finds_by_digit hdigit
  · exact finds_by_byte hbyte
  · exact finds_as_whole hzero
  · exact finds_by_selector hdigit hbyte hzero

theorem masked_of_listed {mask : Nat} (h : listed? key = some (.masked mask)) :
    0 < key ∧ (mask = 0xF00F ∨ mask = 0xF0FF) := by
  unfold listed? at h
  split at h <;> cases h <;> decide

/-- An alias sends a look-up past the keys of one digit. -/
theorem sixteen_le_of_sent {e : Entry} (hlisted : listed? (selector opcode) = some e)
    (hsent : e.nextKey? opcode = some key) : 16 ≤ key := by
  cases e with
  | instruction withFields => cases hsent
  | masked mask =>
      obtain ⟨hpos, hmask⟩ := masked_of_listed hlisted
      have hdigit := Fields.masked_by_digit opcode
      have hbyte := Fields.masked_by_byte opcode
      rw [← selector_eq] at hdigit hbyte
      obtain rfl : Fields.lowWord opcode &&& mask = key := Option.some.inj hsent
      rcases hmask with rfl | rfl
      · omega
      · omega
  | whole =>
      have hwhole : (if opcode < 0x10 then none else some opcode.toNat) = some key := hsent
      split at hwhole
      · cases hwhole
      · cases hwhole
        omega

end Instruction

namespace Machine
variable {stream : RandomBytes} {m : Machine}

def shown (m : Machine) (i : Instruction) : Array Remark :=
  if m.traced then #[.printed (m.stateLine i.mnemonic)] else #[]

/-- To carry out the opcode at hand is to show one instruction, if instructions are
traced, and to do it once. -/
def CarriesOut (stream : RandomBytes) (m : Machine) (i : Instruction) : Prop :=
  m.carryOut stream =
    match i.execute stream m.decoded with
    | .ok _ after => ⟨after, m.shown i, none⟩
    | .error fault _ => ⟨m.decoded, m.shown i, some (m.decoded.haltOnStack fault)⟩

theorem carryOut_of_unknown (h : Instruction.ofOpcode? m.opcode = none) :
    m.carryOut stream = ⟨m.decoded, #[.skipped m.opcode m.origin], none⟩ := by
  unfold carryOut remark?
  simp only [dispatch_apply, Instruction.find?_eq, h]
  rfl

theorem remark?_of_known {i : Instruction} (h : Instruction.ofOpcode? m.opcode = some i) :
    m.remark?.toArray = m.shown i := by
  unfold remark? shown
  simp only [Instruction.find?_eq, h]
  cases m.traced <;> rfl

theorem carriesOut_of_known {i : Instruction} (h : Instruction.ofOpcode? m.opcode = some i) :
    m.CarriesOut stream i := by
  unfold CarriesOut carryOut
  simp only [dispatch_apply, h, remark?_of_known h]
  cases he : i.execute stream m.decoded with
  | ok _ after => rfl
  | error fault left => rw [Instruction.eq_of_execute_eq_error he]

/-- For every opcode one instruction is carried out, once, which is the one listed under
its key, or it has no key, and then it is passed over with a warning and only the fields
change. The look-up begins under the selector and ends; an alias is followed once at most. -/
theorem carryOut_runs_what_is_listed (stream : RandomBytes) (m : Machine) :
    ((∃ key withFields,
        Instruction.slot? m.opcode = some key ∧
          Instruction.listed? key = some (.instruction withFields) ∧
          Instruction.ofOpcode? m.opcode = some (withFields m.decoded.fields) ∧
          m.CarriesOut stream (withFields m.decoded.fields)) ∨
      Instruction.slot? m.opcode = none ∧
        Instruction.ofOpcode? m.opcode = none ∧
        m.carryOut stream = ⟨m.decoded, #[.skipped m.opcode m.origin], none⟩) ∧
      m.decoded.fields.op.val = Instruction.selector m.opcode ∧
      (∀ limit ≥ 2, Instruction.seek m.opcode limit (Instruction.selector m.opcode) =
        some (Instruction.ofOpcode? m.opcode)) ∧
      ∀ first key second,
        Instruction.listed? (Instruction.selector m.opcode) = some first →
        first.nextKey? m.opcode = some key →
        Instruction.listed? key = some second → second.isAlias = false := by
  have hends : ∀ limit ≥ 2, Instruction.seek m.opcode limit (Instruction.selector m.opcode) =
      some (Instruction.ofOpcode? m.opcode) := by
    intro limit hlimit
    obtain ⟨limit, rfl⟩ := Nat.exists_eq_add_of_le' hlimit
    rw [Instruction.selector_eq]
    exact Instruction.seek_selector m.opcode limit
  have hseek := hends 2 (Nat.le_refl 2)
  refine ⟨?_, (Instruction.selector_eq m.opcode).symm, hends, ?_⟩
  · rcases Instruction.finds_slot m.opcode with
      ⟨key, withFields, hslot, hlisted, hfound⟩ | ⟨hslot, hfound⟩
    · have hknown : Instruction.ofOpcode? m.opcode = some (withFields m.decoded.fields) :=
        Option.some.inj (hseek.symm.trans hfound)
      exact .inl ⟨key, withFields, hslot, hlisted, hknown, carriesOut_of_known hknown⟩
    · have hunknown : Instruction.ofOpcode? m.opcode = none :=
        Option.some.inj (hseek.symm.trans hfound)
      exact .inr ⟨hslot, hunknown, carryOut_of_unknown hunknown⟩
  · intro first key second hfirst hsent hsecond
    exact Instruction.not_isAlias (Instruction.sixteen_le_of_sent hfirst hsent) hsecond

end Machine
end Chip8
