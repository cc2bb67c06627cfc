import StackScript.Compiler.Literal
import StackScript.Number.Reading
import StackScript.Proofs.LongestMatch

/-! Literals and their spellings. A number has the decimal numeral that it is shown as; a string has
a spelling for every choice of the escapes that it does not need. The readers of literals take a
spelling back to what it spells, and the lexer takes all of it. -/

namespace StackScript

open Text Lexer

/-! Numerals -/

theorem digit_of_lt : ∀ n < 10, UInt8.ofNat (Nat.digitChar n).toNat = digit n ∧
    isDigit (digit n) = true ∧ (digit n).toNat - 0x30 = n := by decide

theorem natural_of_lt {n : Nat} (small : n < 10) : natural n = [digit n] := by
  rw [natural, Nat.toDigits_of_lt_base small, List.map_singleton, (digit_of_lt n small).1]

theorem natural_of_le {n : Nat} (large : 10 ≤ n) :
    natural n = natural (n / 10) ++ [digit (n % 10)] := by
  have last : n % 10 < 10 := Nat.mod_lt n (by decide)
  rw [natural, Nat.toDigits_of_base_le (by decide) large, List.map_append, List.map_singleton,
    (digit_of_lt _ last).1, natural]

theorem natural_spec (n : Nat) :
    Digits (natural n) ∧ (natural n).foldl (fun n b => 10 * n + (b.toNat - 0x30)) 0 = n := by
  induction n using Nat.strongRecOn with
  | ind n ih =>
    by_cases small : n < 10
    · obtain ⟨_, digit, value⟩ := digit_of_lt n small
      rw [natural_of_lt small]
      exact ⟨⟨by simp, by simpa using digit⟩, by simpa using value⟩
    · have last : n % 10 < 10 := Nat.mod_lt n (by decide)
      obtain ⟨_, digit, value⟩ := digit_of_lt _ last
      obtain ⟨⟨_, all⟩, front⟩ := ih (n / 10) (by omega)
      rw [natural_of_le (Nat.not_lt.1 small)]
      refine ⟨⟨by simp, ?_⟩, ?_⟩
      · intro b mem
        rcases List.mem_append.1 mem with mem | mem
        · exact all b mem
        · rw [List.mem_singleton.1 mem]
          exact digit
      · rw [List.foldl_append, front, List.foldl_cons, List.foldl_nil, value]
        omega

theorem digits_natural (n : Nat) : Digits (natural n) := (natural_spec n).1

theorem readNatural_natural (n : Nat) : Number.readNatural (natural n) = some n := by
  obtain ⟨⟨some, all⟩, value⟩ := natural_spec n
  rw [Number.readNatural, value, if_pos]
  simpa [some] using all

theorem splitSign_of_digits {w : Text} (digits : Digits w) : Number.splitSign w = (false, w) := by
  unfold Number.splitSign
  split
  · exact absurd (digits.all _ List.mem_cons_self) (by decide)
  · exact absurd (digits.all _ List.mem_cons_self) (by decide)
  · rfl

theorem readInt64_natural {n : Nat} (fits : n < 0x8000000000000000) :
    Number.readInt64 (natural n) = some (Int64.ofInt n) := by
  have range : Number.fitsInt64 n = true := by
    simp only [Number.fitsInt64, Bool.and_eq_true, decide_eq_true_eq]
    omega
  simp [Number.readInt64, Number.readInteger, splitSign_of_digits (digits_natural n),
    readNatural_natural, range]

/-! Strings -/

/-- The escapes: the byte behind the backslash, and the byte that is meant. -/
def escapes : List (UInt8 × UInt8) :=
  [(0x6e, newline), (0x74, 0x09), (0x72, 0x0d), (backslash, backslash), (doubleQuote, doubleQuote),
    (singleQuote, singleQuote)]

/-- A text and how it may stand between two quotes. A backslash and that quote are escaped, what
else has an escape may be, and all else stands for itself. -/
inductive Spells (quote : UInt8) : Text → Text → Prop where
  | nil : Spells quote [] []
  | plain {b : UInt8} {s w : Text} : b ≠ backslash → b ≠ quote → Spells quote s w →
      Spells quote (b :: s) (b :: w)
  | escape {e b : UInt8} {s w : Text} : (e, b) ∈ escapes → Spells quote s w →
      Spells quote (b :: s) (backslash :: e :: w)

theorem escapeValue_of_mem {e b : UInt8} (mem : (e, b) ∈ escapes) :
    Literal.escapeValue e = some b := by
  have table : escapes.all (fun x => decide (Literal.escapeValue x.1 = some x.2)) = true := by decide
  exact of_decide_eq_true (List.all_eq_true.1 table (e, b) mem)

namespace Spells

variable {quote : UInt8} {s w : Text}

theorem inside (spells : Spells quote s w) : Inside quote w := by
  induction spells with
  | nil => exact .nil
  | plain shield other _ ih => exact .plain other shield ih
  | escape _ _ ih => exact .pair ih

theorem resolve (spells : Spells quote s w) (done : Text) :
    Literal.resolve w done = .ok (done.reverse ++ s) := by
  induction spells generalizing done with
  | nil => simp [Literal.resolve]
  | plain shield _ _ ih =>
    unfold Literal.resolve
    rw [if_neg shield, ih]
    simp
  | escape mem _ ih =>
    unfold Literal.resolve
    rw [if_pos rfl]
    simp only [escapeValue_of_mem mem, ih]
    simp

theorem unescape (spells : Spells quote s w) :
    Literal.unescape (quote :: (w ++ [quote])) = .ok s := by
  rw [Literal.unescape, if_neg (by simp), List.tail_cons, List.dropLast_concat, spells.resolve]
  rfl

end Spells

/-! Scans -/

theorem scan_string {quote : UInt8} {w : Text} (known : quote ∈ quotes) (inside : Inside quote w)
    (rest : Text) : scan quote (w ++ quote :: rest) = .found .string (w.length + 2) := by
  have shield : quote ≠ backslash := by
    rintro rfl
    exact absurd known (by decide)
  unfold scan
  rw [if_pos (by simpa [quotes] using known), stringFrom_of_inside shield inside]
  simp only [Scan.found.injEq, true_and]
  omega

theorem scan_digits {b : UInt8} {w rest : Text} (digits : Digits (b :: w))
    (ends : rest.takeWhile isDigit = []) (pointless : rest.head? ≠ some point) :
    scan b (w ++ rest) = .found .int (w.length + 1) := by
  have lead := lead_of_digit b (digits.all b List.mem_cons_self)
  have length : digitsLength (b :: w ++ rest) = w.length + 1 := by
    rw [digitsLength_eq, List.takeWhile_append_of_pos digits.all, ends, List.append_nil]
    rfl
  unfold scan
  rw [if_neg (unquoted_of_lead (by simp [lead])), pairKind_of_lead (by simp [lead]),
    singleKind_of_lead (by simp [lead]), if_pos (digits.all b List.mem_cons_self), ← List.cons_append]
  dsimp only
  unfold scanNumber
  dsimp only
  rw [length, List.drop_left' (by simp)]
  split
  · exact absurd rfl pointless
  · rfl

theorem scan_minus {b : UInt8} (digit : isDigit b = true) (rest : Text) :
    scan 0x2d (b :: rest) = .found .minus 1 := by
  have alone : ∀ b : UInt8, isDigit b = true → pairKind 0x2d b = none :=
    forall_byte (by decide +kernel)
  unfold scan
  rw [if_neg (by decide), List.head?_cons, Option.bind_some, alone b digit]
  rfl

theorem scan_semicolon : scan 0x3b [] = .found .semicolon 1 := rfl

theorem wordEnds_blank {b : UInt8} (blank : b ∈ blanks) (rest : Text) : WordEnds (b :: rest) := by
  have table : ∀ b ∈ blanks, b.toNat < 0x80 ∧ continuesWord (Char.ofNat b.toNat) = false := by
    decide +kernel
  obtain ⟨ascii, ends⟩ := table b blank
  intro c u same
  obtain ⟨b', tail, bytes, read⟩ := runeAt_ofChar c u
  rw [bytes] at same
  obtain ⟨rfl, _⟩ := List.cons.inj same
  rw [runeAt_one b ascii] at read
  rwa [← show Char.ofNat b.toNat = c from congrArg Rune.char read]

theorem scan_print (rest : Text) :
    scan 0x70 (utf8 "rint" ++ 0x20 :: rest) = .found .kwPrint 5 := by
  have letters : "print".toList.all continuesWord = true := by decide +kernel
  have length : wordLength (utf8 "print" ++ 0x20 :: rest) = 5 :=
    @wordLength_eq "print".toList (0x20 :: rest) (List.all_eq_true.1 letters)
      (wordEnds_blank (by decide) rest)
  have starts : startsWord (runeAt 0x70 (utf8 "rint" ++ 0x20 :: rest)).char = true := by
    rw [runeAt_one 0x70 (by decide)]
    decide +kernel
  unfold scan
  rw [if_neg (by decide), pairKind_of_lead (by decide +kernel), singleKind_of_lead (by decide +kernel),
    if_neg (by decide), if_pos starts]
  change Scan.found (.ofWord ((utf8 "print" ++ 0x20 :: rest).take
    (wordLength (utf8 "print" ++ 0x20 :: rest)))) (wordLength (utf8 "print" ++ 0x20 :: rest)) = _
  rw [length]
  rfl

end StackScript
