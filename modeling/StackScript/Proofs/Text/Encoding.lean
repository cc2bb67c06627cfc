import StackScript.Text.Utf8

/-! Characters and their bytes. The rune at the front of a text is a character exactly where the
text begins with its encoding, and what begins with no encoding reads as U+FFFD. -/

namespace StackScript.Text

variable {b c d e : UInt8}

theorem forall_byte {P : UInt8 → Prop} (table : ∀ n < 256, P (UInt8.ofNat n)) (b : UInt8) : P b := by
  rw [← UInt8.ofNat_toNat (x := b)]
  exact table b.toNat b.toNat_lt

theorem isTail_iff : isTail b = true ↔ 0x80 ≤ b.toNat ∧ b.toNat ≤ 0xbf := by
  simp [isTail, UInt8.le_iff_toNat_le]

theorem runeAt_one (b : UInt8) (low : b.toNat < 0x80) (rest : Text) :
    runeAt b rest = ⟨Char.ofNat b.toNat, 1⟩ := by
  have ascii : b < 0x80 := UInt8.lt_iff_toNat_lt.2 low
  unfold runeAt
  rw [if_pos ascii]

theorem runeAt_two (low : 0xc2 ≤ b.toNat) (high : b.toNat < 0xe0) (c : UInt8) (rest : Text) :
    runeAt b (c :: rest) = .ofCode (isTail c) (b.toNat % 32 * 64 + c.toNat % 64) 2 := by
  have wide : ¬ b < 0x80 := by simp [UInt8.lt_iff_toNat_lt]; omega
  have even : ¬ (b < 0xc2 || 0xf4 < b) = true := by simp [UInt8.lt_iff_toNat_lt]; omega
  have two : b < 0xe0 := by simpa [UInt8.lt_iff_toNat_lt] using high
  unfold runeAt
  rw [if_neg wide, if_neg even]
  exact if_pos two

theorem runeAt_three (low : 0xe0 ≤ b.toNat) (high : b.toNat < 0xf0) (c d : UInt8) (rest : Text) :
    runeAt b (c :: d :: rest) =
      .ofCode (isTail c && isTail d && (b != 0xe0 || 0xa0 ≤ c) && (b != 0xed || c ≤ 0x9f))
        ((b.toNat % 16 * 64 + c.toNat % 64) * 64 + d.toNat % 64) 3 := by
  have wide : ¬ b < 0x80 := by simp [UInt8.lt_iff_toNat_lt]; omega
  have even : ¬ (b < 0xc2 || 0xf4 < b) = true := by simp [UInt8.lt_iff_toNat_lt]; omega
  have three : ¬ b < 0xe0 := by simpa [UInt8.lt_iff_toNat_lt] using low
  have four : b < 0xf0 := by simpa [UInt8.lt_iff_toNat_lt] using high
  unfold runeAt
  rw [if_neg wide, if_neg even]
  exact (if_neg three).trans (if_pos four)

theorem runeAt_four (low : 0xf0 ≤ b.toNat) (high : b.toNat ≤ 0xf4) (c d e : UInt8) (rest : Text) :
    runeAt b (c :: d :: e :: rest) =
      .ofCode (isTail c && isTail d && isTail e && (b != 0xf0 || 0x90 ≤ c) && (b != 0xf4 || c ≤ 0x8f))
        (((b.toNat % 8 * 64 + c.toNat % 64) * 64 + d.toNat % 64) * 64 + e.toNat % 64) 4 := by
  have wide : ¬ b < 0x80 := by simp [UInt8.lt_iff_toNat_lt]; omega
  have even : ¬ (b < 0xc2 || 0xf4 < b) = true := by simp [UInt8.lt_iff_toNat_lt]; omega
  have three : ¬ b < 0xe0 := by simp [UInt8.lt_iff_toNat_lt]; omega
  have four : ¬ b < 0xf0 := by simpa [UInt8.lt_iff_toNat_lt] using low
  unfold runeAt
  rw [if_neg wide, if_neg even]
  exact (if_neg three).trans (if_neg four)

def bytesOf (v : Nat) : Text :=
  if v ≤ 0x7f then [UInt8.ofNat v]
  else if v ≤ 0x7ff then [UInt8.ofNat (v / 64 % 32 + 0xc0), UInt8.ofNat (v % 64 + 0x80)]
  else if v ≤ 0xffff then
    [UInt8.ofNat (v / 4096 % 16 + 0xe0), UInt8.ofNat (v / 64 % 64 + 0x80), UInt8.ofNat (v % 64 + 0x80)]
  else
    [UInt8.ofNat (v / 262144 % 8 + 0xf0), UInt8.ofNat (v / 4096 % 64 + 0x80),
      UInt8.ofNat (v / 64 % 64 + 0x80), UInt8.ofNat (v % 64 + 0x80)]

theorem ofChar_eq (c : Char) : ofChar c = bytesOf c.toNat := rfl

theorem ofChar_ofNat {n : Nat} (valid : n.isValidChar) : ofChar (Char.ofNat n) = bytesOf n := by
  rw [ofChar_eq]
  congr 1
  rw [Char.ofNat, dif_pos valid]
  rfl

theorem ofCode_true (code size : Nat) : Rune.ofCode true code size = ⟨Char.ofNat code, size⟩ := rfl

theorem three_wellFormed_iff :
    (isTail c && isTail d && (b != 0xe0 || 0xa0 ≤ c) && (b != 0xed || c ≤ 0x9f)) = true ↔
      (0x80 ≤ c.toNat ∧ c.toNat ≤ 0xbf) ∧ (0x80 ≤ d.toNat ∧ d.toNat ≤ 0xbf) ∧
        (b.toNat ≠ 0xe0 ∨ 0xa0 ≤ c.toNat) ∧ (b.toNat ≠ 0xed ∨ c.toNat ≤ 0x9f) := by
  simp [isTail_iff, UInt8.le_iff_toNat_le, ← UInt8.toNat_inj, and_assoc]

theorem four_wellFormed_iff :
    (isTail c && isTail d && isTail e && (b != 0xf0 || 0x90 ≤ c) && (b != 0xf4 || c ≤ 0x8f)) = true ↔
      (0x80 ≤ c.toNat ∧ c.toNat ≤ 0xbf) ∧ (0x80 ≤ d.toNat ∧ d.toNat ≤ 0xbf) ∧
        (0x80 ≤ e.toNat ∧ e.toNat ≤ 0xbf) ∧ (b.toNat ≠ 0xf0 ∨ 0x90 ≤ c.toNat) ∧
        (b.toNat ≠ 0xf4 ∨ c.toNat ≤ 0x8f) := by
  simp [isTail_iff, UInt8.le_iff_toNat_le, ← UInt8.toNat_inj, and_assoc]

theorem runeAt_ofChar (c : Char) (rest : Text) :
    ∃ b tail, ofChar c = b :: tail ∧ runeAt b (tail ++ rest) = ⟨c, tail.length + 1⟩ := by
  have valid : c.toNat < 0xd800 ∨ 0xdfff < c.toNat ∧ c.toNat < 0x110000 := c.valid
  have same := c.ofNat_toNat
  rw [ofChar_eq]
  generalize c.toNat = v at *
  subst same
  have byte (n : Nat) (small : n < 256) : (UInt8.ofNat n).toNat = n := by simp; omega
  unfold bytesOf
  split
  · refine ⟨_, _, rfl, ?_⟩
    have whole := byte v (by omega)
    rw [runeAt_one _ (by omega), whole]
    rfl
  · split
    · have first := byte (v / 64 % 32 + 0xc0) (by omega)
      have last := byte (v % 64 + 0x80) (by omega)
      refine ⟨_, _, rfl, ?_⟩
      rw [List.singleton_append, runeAt_two (by omega) (by omega), isTail_iff.2 (by omega), first,
        last, ofCode_true]
      congr 2
      omega
    · split
      · have first := byte (v / 4096 % 16 + 0xe0) (by omega)
        have second := byte (v / 64 % 64 + 0x80) (by omega)
        have last := byte (v % 64 + 0x80) (by omega)
        refine ⟨_, _, rfl, ?_⟩
        rw [List.cons_append, List.singleton_append, runeAt_three (by omega) (by omega),
          three_wellFormed_iff.2 (by omega), first, second, last, ofCode_true]
        congr 2
        omega
      · have first := byte (v / 262144 % 8 + 0xf0) (by omega)
        have second := byte (v / 4096 % 64 + 0x80) (by omega)
        have third := byte (v / 64 % 64 + 0x80) (by omega)
        have last := byte (v % 64 + 0x80) (by omega)
        refine ⟨_, _, rfl, ?_⟩
        rw [List.cons_append, List.cons_append, List.singleton_append,
          runeAt_four (by omega) (by omega), four_wellFormed_iff.2 (by omega), first, second, third,
          last, ofCode_true]
        congr 2
        omega

def Encodes (code : Nat) (bytes : Text) : Prop := code.isValidChar ∧ bytesOf code = bytes

theorem encodes_one (first : b.toNat < 0x80) : Encodes b.toNat [b] := by
  refine ⟨.inl (by omega), ?_⟩
  rw [bytesOf, if_pos (by omega), UInt8.ofNat_toNat]

theorem encodes_two (first : 0xc2 ≤ b.toNat ∧ b.toNat < 0xe0)
    (tail : 0x80 ≤ c.toNat ∧ c.toNat ≤ 0xbf) :
    Encodes (b.toNat % 32 * 64 + c.toNat % 64) [b, c] := by
  refine ⟨.inl (by omega), ?_⟩
  rw [bytesOf, if_neg (by omega), if_pos (by omega)]
  simp only [List.cons.injEq, ← UInt8.toNat_inj, UInt8.toNat_ofNat', and_true]
  omega

theorem encodes_three (first : 0xe0 ≤ b.toNat ∧ b.toNat < 0xf0)
    (second : 0x80 ≤ c.toNat ∧ c.toNat ≤ 0xbf) (last : 0x80 ≤ d.toNat ∧ d.toNat ≤ 0xbf)
    (overlong : b.toNat ≠ 0xe0 ∨ 0xa0 ≤ c.toNat) (surrogate : b.toNat ≠ 0xed ∨ c.toNat ≤ 0x9f) :
    Encodes ((b.toNat % 16 * 64 + c.toNat % 64) * 64 + d.toNat % 64) [b, c, d] := by
  refine ⟨by unfold Nat.isValidChar; omega, ?_⟩
  rw [bytesOf, if_neg (by omega), if_neg (by omega), if_pos (by omega)]
  simp only [List.cons.injEq, ← UInt8.toNat_inj, UInt8.toNat_ofNat', and_true]
  omega

theorem encodes_four (first : 0xf0 ≤ b.toNat ∧ b.toNat ≤ 0xf4)
    (second : 0x80 ≤ c.toNat ∧ c.toNat ≤ 0xbf) (third : 0x80 ≤ d.toNat ∧ d.toNat ≤ 0xbf)
    (last : 0x80 ≤ e.toNat ∧ e.toNat ≤ 0xbf) (overlong : b.toNat ≠ 0xf0 ∨ 0x90 ≤ c.toNat)
    (large : b.toNat ≠ 0xf4 ∨ c.toNat ≤ 0x8f) :
    Encodes (((b.toNat % 8 * 64 + c.toNat % 64) * 64 + d.toNat % 64) * 64 + e.toNat % 64)
      [b, c, d, e] := by
  refine ⟨.inr (by omega), ?_⟩
  rw [bytesOf, if_neg (by omega), if_neg (by omega), if_neg (by omega)]
  simp only [List.cons.injEq, ← UInt8.toNat_inj, UInt8.toNat_ofNat', and_true]
  omega

/-- What the rune at the front of a text was read from: a byte that begins no character, or the
encoding of one. -/
inductive Reads (b : UInt8) : Text → Rune → Prop where
  | invalid {rest : Text} : Reads b rest .invalid
  | char {c : Char} {tail rest : Text} : ofChar c = b :: tail →
      Reads b (tail ++ rest) ⟨c, tail.length + 1⟩

theorem reads_ofCode (tail rest : Text) {wellFormed : Bool} {code : Nat}
    (h : wellFormed = true → Encodes code (b :: tail)) :
    Reads b (tail ++ rest) (.ofCode wellFormed code (tail.length + 1)) := by
  cases wellFormed with
  | false => exact .invalid
  | true =>
    obtain ⟨valid, bytes⟩ := h rfl
    exact .char ((ofChar_ofNat valid).trans bytes)

theorem runeAt_reads (b : UInt8) (rest : Text) : Reads b rest (runeAt b rest) := by
  unfold runeAt
  simp only [UInt8.lt_iff_toNat_lt, Bool.or_eq_true, decide_eq_true_eq]
  split
  · next one => exact reads_ofCode [] rest fun (_ : true = true) => encodes_one one
  · split
    · exact .invalid
    · next inside =>
      have low : 0xc2 ≤ b.toNat := Nat.le_of_not_lt fun low => inside (.inl low)
      have high : b.toNat ≤ 0xf4 := Nat.le_of_not_lt fun high => inside (.inr high)
      split
      · exact .invalid
      · next c rest =>
        split
        · next two =>
          exact reads_ofCode [c] rest fun wellFormed => encodes_two ⟨low, two⟩ (isTail_iff.1 wellFormed)
        · next three =>
          split
          · exact .invalid
          · next d rest =>
            split
            · next four =>
              refine reads_ofCode [c, d] rest fun wellFormed => ?_
              obtain ⟨second, last, overlong, surrogate⟩ := three_wellFormed_iff.1 wellFormed
              exact encodes_three ⟨Nat.le_of_not_lt three, four⟩ second last overlong surrogate
            · next four =>
              split
              · exact .invalid
              · next e rest =>
                refine reads_ofCode [c, d, e] rest fun wellFormed => ?_
                obtain ⟨second, third, last, overlong, large⟩ := four_wellFormed_iff.1 wellFormed
                exact encodes_four ⟨Nat.le_of_not_lt four, high⟩ second third last overlong large

theorem ofChar_ne_nil (c : Char) : ofChar c ≠ [] := by
  obtain ⟨b, tail, bytes, _⟩ := runeAt_ofChar c []
  simp [bytes]

theorem ofChar_append_inj {c d : Char} {t u : Text} (h : ofChar c ++ t = ofChar d ++ u) :
    c = d ∧ t = u := by
  obtain ⟨b, tail, bytes, read⟩ := runeAt_ofChar c t
  obtain ⟨b', tail', bytes', read'⟩ := runeAt_ofChar d u
  rw [bytes, bytes', List.cons_append, List.cons_append] at h
  obtain ⟨rfl, rest⟩ := List.cons.inj h
  rw [rest, read'] at read
  obtain rfl : d = c := congrArg Rune.char read
  rw [bytes] at bytes'
  obtain rfl := (List.cons.inj bytes').2
  exact ⟨rfl, List.append_cancel_left rest⟩

theorem ofChars_cons (c : Char) (cs : List Char) : ofChars (c :: cs) = ofChar c ++ ofChars cs := rfl

theorem ofChars_of_ascii {cs : List Char} (low : ∀ c ∈ cs, c.toNat ≤ 0x7f) :
    ofChars cs = cs.map fun c => UInt8.ofNat c.toNat := by
  induction cs with
  | nil => rfl
  | cons c cs ih =>
    obtain ⟨first, rest⟩ := List.forall_mem_cons.1 low
    rw [ofChars_cons, ih rest, ofChar_eq, bytesOf, if_pos first]
    rfl

theorem utf8_append (s t : String) : utf8 (s ++ t) = utf8 s ++ utf8 t := by
  simp [utf8]

theorem utf8_ofList (cs : List Char) : utf8 (String.ofList cs) = ofChars cs := by
  simp only [utf8, String.toUTF8_eq_toByteArray, String.toByteArray_ofList, List.utf8Encode,
    List.data_toByteArray, ofChars]
  rfl

theorem natural_eq (n : Nat) : natural n = utf8 (toString n) := by
  rw [Nat.toString_eq_repr, Nat.repr_eq_ofList_toDigits, utf8_ofList, ofChars_of_ascii, natural]
  intro c mem
  have digit := Nat.isDigit_of_mem_toDigits (by decide) (by decide) mem
  exact Nat.le_trans (Char.isDigit_iff_toNat.1 digit).2 (by decide)

theorem decimal_eq (i : Int) : decimal i = utf8 (toString i) := by
  cases i with
  | ofNat n => exact natural_eq n
  | negSucc n =>
    have signed : toString (Int.negSucc n) = "-" ++ toString (n + 1) := rfl
    rw [signed, utf8_append, ← natural_eq]
    rfl

end StackScript.Text
