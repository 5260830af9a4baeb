import Chip8.Instruction.Basic

/-!
# The instruction table

Which sixteen-bit words stand for which instruction. A word has a selector in
its top digit, and an address, a register and a byte, or three digits below. The
table lists the words of every instruction; a shift ignores its third digit, so
sixteen words stand for each shift. The main statement is that decoding a word
reads this table and nothing else.
-/
namespace Chip8

def addressWord (op : Fin 16) (a : Fin 4096) : Nat := 0x1000 * op.val + a.val

def byteWord (op x : Fin 16) (k : UInt8) : Nat := 0x1000 * op.val + 0x100 * x.val + k.toNat

def registersWord (op x y n : Fin 16) : Nat :=
  0x1000 * op.val + 0x100 * x.val + 0x10 * y.val + n.val

theorem addressWord_lt (op : Fin 16) (a : Fin 4096) : addressWord op a < 65536 := by
  unfold addressWord
  omega

theorem byteWord_lt (op x : Fin 16) (k : UInt8) : byteWord op x k < 65536 := by
  have hk := k.toNat_lt
  unfold byteWord
  omega

theorem registersWord_lt (op x y n : Fin 16) : registersWord op x y n < 65536 := by
  unfold registersWord
  omega

namespace Fields

/-- All bits of a word are looked at. -/
theorem ofOpcode_of_lt {word : Nat} (h : word < 65536) : ofOpcode word = ofWord word := by
  unfold ofOpcode lowWord
  congr 1
  omega

theorem ofWord_addressWord (op : Fin 16) (a : Fin 4096) :
    (ofWord (addressWord op a)).op = op ∧ (ofWord (addressWord op a)).nnn = a := by
  simp only [ofWord, addressWord, Fin.ext_iff, Fin.val_ofNat]
  omega

theorem ofWord_byteWord (op x : Fin 16) (k : UInt8) :
    (ofWord (byteWord op x k)).op = op ∧ (ofWord (byteWord op x k)).x = x ∧
      (ofWord (byteWord op x k)).nn = k := by
  have hk := k.toNat_lt
  simp only [ofWord, byteWord, Fin.ext_iff, Fin.val_ofNat, ← UInt8.toNat_inj, UInt8.toNat_ofNat']
  omega

theorem ofWord_registersWord (op x y n : Fin 16) :
    (ofWord (registersWord op x y n)).op = op ∧ (ofWord (registersWord op x y n)).x = x ∧
      (ofWord (registersWord op x y n)).y = y ∧ (ofWord (registersWord op x y n)).n = n := by
  simp only [ofWord, registersWord, Fin.ext_iff, Fin.val_ofNat]
  omega

theorem eq_addressWord {word : Nat} (h : word < 65536) :
    word = addressWord (ofWord word).op (ofWord word).nnn := by
  simp only [ofWord, addressWord, Fin.val_ofNat]
  omega

theorem eq_byteWord {word : Nat} (h : word < 65536) :
    word = byteWord (ofWord word).op (ofWord word).x (ofWord word).nn := by
  simp only [ofWord, byteWord, Fin.val_ofNat, UInt8.toNat_ofNat']
  omega

theorem eq_registersWord {word : Nat} (h : word < 65536) :
    word = registersWord (ofWord word).op (ofWord word).x (ofWord word).y (ofWord word).n := by
  simp only [ofWord, registersWord, Fin.val_ofNat]
  omega

end Fields

namespace Instruction

inductive StandsFor : Nat → Instruction → Prop
  | clear : StandsFor 0x00E0 clear
  | ret : StandsFor 0x00EE ret
  | jump (a : Fin 4096) : StandsFor (addressWord 0x1 a) (jump a)
  | call (a : Fin 4096) : StandsFor (addressWord 0x2 a) (call a)
  | skipIfByte (x : Fin 16) (k : UInt8) : StandsFor (byteWord 0x3 x k) (skipIfByte x k)
  | skipUnlessByte (x : Fin 16) (k : UInt8) : StandsFor (byteWord 0x4 x k) (skipUnlessByte x k)
  | skipIfSame (x y : Fin 16) : StandsFor (registersWord 0x5 x y 0x0) (skipIfSame x y)
  | setByte (x : Fin 16) (k : UInt8) : StandsFor (byteWord 0x6 x k) (setByte x k)
  | addByte (x : Fin 16) (k : UInt8) : StandsFor (byteWord 0x7 x k) (addByte x k)
  | copy (x y : Fin 16) : StandsFor (registersWord 0x8 x y 0x0) (copy x y)
  | or (x y : Fin 16) : StandsFor (registersWord 0x8 x y 0x1) (or x y)
  | and (x y : Fin 16) : StandsFor (registersWord 0x8 x y 0x2) (and x y)
  | xor (x y : Fin 16) : StandsFor (registersWord 0x8 x y 0x3) (xor x y)
  | add (x y : Fin 16) : StandsFor (registersWord 0x8 x y 0x4) (add x y)
  | subtract (x y : Fin 16) : StandsFor (registersWord 0x8 x y 0x5) (subtract x y)
  | shiftRight (x y : Fin 16) : StandsFor (registersWord 0x8 x y 0x6) (shiftRight x)
  | subtractFrom (x y : Fin 16) : StandsFor (registersWord 0x8 x y 0x7) (subtractFrom x y)
  | shiftLeft (x y : Fin 16) : StandsFor (registersWord 0x8 x y 0xE) (shiftLeft x)
  | skipUnlessSame (x y : Fin 16) : StandsFor (registersWord 0x9 x y 0x0) (skipUnlessSame x y)
  | setIndex (a : Fin 4096) : StandsFor (addressWord 0xA a) (setIndex a)
  | jumpFromV0 (a : Fin 4096) : StandsFor (addressWord 0xB a) (jumpFromV0 a)
  | random (x : Fin 16) (k : UInt8) : StandsFor (byteWord 0xC x k) (random x k)
  | draw (x y n : Fin 16) : StandsFor (registersWord 0xD x y n) (draw x y n)
  | skipIfKey (x : Fin 16) : StandsFor (byteWord 0xE x 0x9E) (skipIfKey x)
  | skipUnlessKey (x : Fin 16) : StandsFor (byteWord 0xE x 0xA1) (skipUnlessKey x)
  | getDelay (x : Fin 16) : StandsFor (byteWord 0xF x 0x07) (getDelay x)
  | waitForKey (x : Fin 16) : StandsFor (byteWord 0xF x 0x0A) (waitForKey x)
  | setDelay (x : Fin 16) : StandsFor (byteWord 0xF x 0x15) (setDelay x)
  | setSound (x : Fin 16) : StandsFor (byteWord 0xF x 0x18) (setSound x)
  | addToIndex (x : Fin 16) : StandsFor (byteWord 0xF x 0x1E) (addToIndex x)
  | pointAtGlyph (x : Fin 16) : StandsFor (byteWord 0xF x 0x29) (pointAtGlyph x)
  | storeDigits (x : Fin 16) : StandsFor (byteWord 0xF x 0x33) (storeDigits x)
  | storeRegisters (x : Fin 16) : StandsFor (byteWord 0xF x 0x55) (storeRegisters x)
  | loadRegisters (x : Fin 16) : StandsFor (byteWord 0xF x 0x65) (loadRegisters x)

theorem StandsFor.of_eq {word word' : Nat} {i : Instruction} (h : StandsFor word i)
    (e : word' = word) : StandsFor word' i := e ▸ h

theorem StandsFor.lt {word : Nat} {i : Instruction} (h : StandsFor word i) : word < 65536 := by
  cases h with
  | clear | ret => decide
  | jump | call | setIndex | jumpFromV0 => exact addressWord_lt _ _
  | skipIfSame | copy | or | and | xor | add | subtract | shiftRight | subtractFrom | shiftLeft
  | skipUnlessSame | draw => exact registersWord_lt _ _ _ _
  | _ => exact byteWord_lt _ _ _

theorem StandsFor.ofOpcode? {word : Nat} {i : Instruction} (h : StandsFor word i) :
    ofOpcode? word = some i := by
  unfold Instruction.ofOpcode?
  rw [Fields.ofOpcode_of_lt h.lt]
  cases h with
  | clear | ret => rfl
  | jump | call | setIndex | jumpFromV0 =>
      simp only [Fields.ofWord_addressWord]
      rfl
  | skipIfSame | copy | or | and | xor | add | subtract | shiftRight | subtractFrom | shiftLeft
  | skipUnlessSame | draw =>
      simp only [Fields.ofWord_registersWord]
      rfl
  | _ =>
      simp only [Fields.ofWord_byteWord]
      rfl

theorem standsFor_arithmetic {x y n : Fin 16} {i : Instruction}
    (h : arithmetic? x y n.val = some i) : StandsFor (registersWord 0x8 x y n) i := by
  unfold arithmetic? at h
  split at h <;> rename_i hn <;> cases h
  · exact (Fin.ext hn : n = 0x0) ▸ .copy x y
  · exact (Fin.ext hn : n = 0x1) ▸ .or x y
  · exact (Fin.ext hn : n = 0x2) ▸ .and x y
  · exact (Fin.ext hn : n = 0x3) ▸ .xor x y
  · exact (Fin.ext hn : n = 0x4) ▸ .add x y
  · exact (Fin.ext hn : n = 0x5) ▸ .subtract x y
  · exact (Fin.ext hn : n = 0x6) ▸ .shiftRight x y
  · exact (Fin.ext hn : n = 0x7) ▸ .subtractFrom x y
  · exact (Fin.ext hn : n = 0xE) ▸ .shiftLeft x y

theorem standsFor_peripheral {x : Fin 16} {k : UInt8} {i : Instruction}
    (h : peripheral? x k.toNat = some i) : StandsFor (byteWord 0xF x k) i := by
  unfold peripheral? at h
  split at h <;> rename_i hk <;> cases h
  · exact (UInt8.toNat_inj.mp hk : k = 0x07) ▸ .getDelay x
  · exact (UInt8.toNat_inj.mp hk : k = 0x0A) ▸ .waitForKey x
  · exact (UInt8.toNat_inj.mp hk : k = 0x15) ▸ .setDelay x
  · exact (UInt8.toNat_inj.mp hk : k = 0x18) ▸ .setSound x
  · exact (UInt8.toNat_inj.mp hk : k = 0x1E) ▸ .addToIndex x
  · exact (UInt8.toNat_inj.mp hk : k = 0x29) ▸ .pointAtGlyph x
  · exact (UInt8.toNat_inj.mp hk : k = 0x33) ▸ .storeDigits x
  · exact (UInt8.toNat_inj.mp hk : k = 0x55) ▸ .storeRegisters x
  · exact (UInt8.toNat_inj.mp hk : k = 0x65) ▸ .loadRegisters x

theorem standsFor_of_ofOpcode? {word : Nat} (hw : word < 65536) {i : Instruction}
    (h : Instruction.ofOpcode? word = some i) : StandsFor word i := by
  unfold Instruction.ofOpcode? at h
  rw [Fields.ofOpcode_of_lt hw] at h
  have ha := Fields.eq_addressWord hw
  have hb := Fields.eq_byteWord hw
  have hr := Fields.eq_registersWord hw
  -- From here on the word is known only through its fields, read in three ways.
  generalize Fields.ofWord word = f at h ha hb hr
  obtain ⟨op, x, y, n, k, a⟩ := f
  dsimp only at h ha hb hr
  split at h <;> rename_i hop
  · split at h
    · rename_i e
      cases h
      exact .of_eq .clear (Int.ofNat_inj.mp e)
    · split at h
      · rename_i e
        cases h
        exact .of_eq .ret (Int.ofNat_inj.mp e)
      · cases h
  · obtain rfl : op = 0x1 := Fin.ext hop
    cases h
    exact .of_eq (.jump a) ha
  · obtain rfl : op = 0x2 := Fin.ext hop
    cases h
    exact .of_eq (.call a) ha
  · obtain rfl : op = 0x3 := Fin.ext hop
    cases h
    exact .of_eq (.skipIfByte x k) hb
  · obtain rfl : op = 0x4 := Fin.ext hop
    cases h
    exact .of_eq (.skipUnlessByte x k) hb
  · obtain rfl : op = 0x5 := Fin.ext hop
    split at h <;> cases h
    rename_i hn
    obtain rfl : n = 0x0 := Fin.ext hn
    exact .of_eq (.skipIfSame x y) hr
  · obtain rfl : op = 0x6 := Fin.ext hop
    cases h
    exact .of_eq (.setByte x k) hb
  · obtain rfl : op = 0x7 := Fin.ext hop
    cases h
    exact .of_eq (.addByte x k) hb
  · obtain rfl : op = 0x8 := Fin.ext hop
    exact .of_eq (standsFor_arithmetic h) hr
  · obtain rfl : op = 0x9 := Fin.ext hop
    split at h <;> cases h
    rename_i hn
    obtain rfl : n = 0x0 := Fin.ext hn
    exact .of_eq (.skipUnlessSame x y) hr
  · obtain rfl : op = 0xA := Fin.ext hop
    cases h
    exact .of_eq (.setIndex a) ha
  · obtain rfl : op = 0xB := Fin.ext hop
    cases h
    exact .of_eq (.jumpFromV0 a) ha
  · obtain rfl : op = 0xC := Fin.ext hop
    cases h
    exact .of_eq (.random x k) hb
  · obtain rfl : op = 0xD := Fin.ext hop
    cases h
    exact .of_eq (.draw x y n) hr
  · obtain rfl : op = 0xE := Fin.ext hop
    split at h
    · rename_i hk
      cases h
      exact .of_eq (hk ▸ .skipIfKey x) hb
    · split at h <;> cases h
      rename_i hk
      exact .of_eq (hk ▸ .skipUnlessKey x) hb
  · obtain rfl : op = 0xF := by grind
    exact .of_eq (standsFor_peripheral h) hb

/-- Decoding a word reads the table. -/
theorem ofOpcode?_eq_some_iff {word : Nat} (h : word < 65536) {i : Instruction} :
    Instruction.ofOpcode? word = some i ↔ StandsFor word i :=
  ⟨standsFor_of_ofOpcode? h, StandsFor.ofOpcode?⟩

/-- A word outside the table is unknown. -/
theorem ofOpcode?_eq_none_iff {word : Nat} (h : word < 65536) :
    Instruction.ofOpcode? word = none ↔ ∀ i, ¬ StandsFor word i := by
  simp only [Option.eq_none_iff_forall_ne_some, ne_eq, ofOpcode?_eq_some_iff h]

/-- No word stands for two instructions. -/
theorem StandsFor.unique {word : Nat} {i j : Instruction} (hi : StandsFor word i)
    (hj : StandsFor word j) : i = j :=
  Option.some.inj (hi.ofOpcode?.symm.trans hj.ofOpcode?)

end Instruction
end Chip8
