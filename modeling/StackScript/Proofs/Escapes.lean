import StackScript.Compiler.Literal
import StackScript.Proofs.LongestMatch

/-! Escapes in strings. The lexer passes over the character behind a backslash, and the value of a
literal is read byte by byte; both see the same escapes, told here by the run of backslashes in front
of each. So a string token always has a value, unless one of its escapes is unknown. -/

namespace StackScript

open Text Lexer

/-! Escapes by their places -/

/-- A backslash that begins an escape: those directly before it pair off. -/
def Escapes (t : Text) (i : Nat) : Prop :=
  t[i]? = some backslash ∧ ((t.take i).reverse.takeWhile (· = backslash)).length % 2 = 0

instance (t : Text) (i : Nat) : Decidable (Escapes t i) := inferInstanceAs (Decidable (_ ∧ _))

def escapeCount (t : Text) : Nat := (List.range t.length).countP (Escapes t)

def escapable : Text := utf8 "ntr\\\"'"

def UnknownEscape (t : Text) (i : Nat) (e : UInt8) : Prop :=
  Escapes t i ∧ t[i + 1]? = some e ∧ e ∉ escapable

variable {t body : Text} {b e quote : UInt8} {i : Nat}

theorem escapes_zero : Escapes (b :: t) 0 ↔ b = backslash := by simp [Escapes]

/-- What stands before a byte other than the backslash does not matter behind it. -/
theorem escapes_plain (other : b ≠ backslash) : Escapes (b :: t) (i + 1) ↔ Escapes t i := by
  have run (u : Text) : ((u ++ [b]).takeWhile (· = backslash)) = u.takeWhile (· = backslash) := by
    rw [List.takeWhile_append]
    split
    · next whole =>
      rw [List.takeWhile_cons_of_neg (by simpa using other), List.append_nil]
      exact ((List.takeWhile_prefix _).eq_of_length whole).symm
    · rfl
  unfold Escapes
  rw [List.getElem?_cons_succ, List.take_succ_cons, List.reverse_cons, run]

theorem not_escapes_one : ¬ Escapes (backslash :: b :: t) 1 := by simp [Escapes]

theorem escapes_pair : Escapes (backslash :: b :: t) (i + 2) ↔ Escapes t i := by
  have run (u : Text) : ((u ++ [b, backslash]).takeWhile (· = backslash)).length % 2 =
      (u.takeWhile (· = backslash)).length % 2 := by
    rw [List.takeWhile_append]
    split
    · next whole =>
      by_cases same : b = backslash
      · simp [same, whole]
      · rw [List.takeWhile_cons_of_neg (by simpa using same), List.append_nil, whole]
    · rfl
  unfold Escapes
  rw [List.getElem?_cons_succ, List.getElem?_cons_succ, List.take_succ_cons, List.take_succ_cons,
    List.reverse_cons, List.reverse_cons, List.append_assoc, List.singleton_append, run]

theorem escapeCount_plain (other : b ≠ backslash) : escapeCount (b :: t) = escapeCount t := by
  unfold escapeCount
  rw [List.length_cons, List.range_succ_eq_map, List.countP_cons_of_neg, List.countP_map]
  · exact List.countP_congr fun i _ => by simp [escapes_plain other]
  · simpa [escapes_zero] using other

theorem escapeCount_pair : escapeCount (backslash :: b :: t) = escapeCount t + 1 := by
  unfold escapeCount
  rw [List.length_cons, List.length_cons, List.range_succ_eq_map, List.range_succ_eq_map,
    List.countP_cons_of_pos, List.map_cons, List.countP_cons_of_neg, List.map_map, List.countP_map]
  · congr 1
    exact List.countP_congr fun i _ => by simp [escapes_pair]
  · simp [not_escapes_one]
  · simp [escapes_zero]

theorem unknownEscape_plain (other : b ≠ backslash) :
    UnknownEscape (b :: t) i e ↔ ∃ j, i = j + 1 ∧ UnknownEscape t j e := by
  cases i with
  | zero => simp [UnknownEscape, escapes_zero, other]
  | succ i => simp [UnknownEscape, escapes_plain other]

theorem unknownEscape_pair : UnknownEscape (backslash :: b :: t) i e ↔
    (i = 0 ∧ e = b ∧ b ∉ escapable) ∨ ∃ j, i = j + 2 ∧ UnknownEscape t j e := by
  match i with
  | 0 =>
    have next : (backslash :: b :: t)[0 + 1]? = some e ↔ e = b := by simp [eq_comm]
    simp only [UnknownEscape, escapes_zero, next]
    constructor
    · rintro ⟨_, rfl, unknown⟩
      exact .inl ⟨trivial, rfl, unknown⟩
    · rintro (⟨_, rfl, unknown⟩ | ⟨j, impossible, _⟩)
      · exact ⟨trivial, rfl, unknown⟩
      · cases impossible
  | 1 => simp [UnknownEscape, not_escapes_one]
  | i + 2 => simp [UnknownEscape, escapes_pair]

theorem escapeValue_eq_none (e : UInt8) : Literal.escapeValue e = none ↔ e ∉ escapable := by
  have table : ∀ e : UInt8, Literal.escapeValue e = none ↔ e ∉ escapable :=
    forall_byte (by decide +kernel)
  exact table e

/-! The value of a body -/

/-- What comes of the inside of a string: its bytes, one for each escape, or the first escape that
has no meaning. -/
inductive Resolves (body : Text) (done : Text) : Except LiteralFault Text → Prop where
  | value {s : Text} : (∀ i e, ¬ UnknownEscape body i e) →
      s.length + escapeCount body = done.length + body.length → Resolves body done (.ok s)
  | unknown {i : Nat} {e : UInt8} : UnknownEscape body i e →
      (∀ j < i, ∀ e, ¬ UnknownEscape body j e) → Resolves body done (.error (.unknownEscape e))

theorem Resolves.plain {done : Text} {x : Except LiteralFault Text} (other : b ≠ backslash)
    (h : Resolves body (b :: done) x) : Resolves (b :: body) done x := by
  cases h with
  | value known length =>
    refine .value ?_ ?_
    · intro i e unknown
      obtain ⟨j, rfl, inside⟩ := (unknownEscape_plain other).1 unknown
      exact known j e inside
    · rw [escapeCount_plain other, length, List.length_cons, List.length_cons]
      omega
  | unknown unknown first =>
    refine .unknown ((unknownEscape_plain other).2 ⟨_, rfl, unknown⟩) ?_
    intro i earlier e unknown
    obtain ⟨j, rfl, inside⟩ := (unknownEscape_plain other).1 unknown
    exact first j (by omega) e inside

theorem Resolves.pair {v : UInt8} {done : Text} {x : Except LiteralFault Text}
    (known : b ∈ escapable) (h : Resolves body (v :: done) x) : Resolves (backslash :: b :: body) done x := by
  have behind {i : Nat} {e : UInt8} (unknown : UnknownEscape (backslash :: b :: body) i e) :
      ∃ j, i = j + 2 ∧ UnknownEscape body j e := by
    rcases unknownEscape_pair.1 unknown with ⟨_, _, unknown⟩ | later
    · exact absurd known unknown
    · exact later
  cases h with
  | value none length =>
    refine .value ?_ ?_
    · intro i e unknown
      obtain ⟨j, rfl, inside⟩ := behind unknown
      exact none j e inside
    · rw [escapeCount_pair, ← Nat.add_assoc, length]
      simp only [List.length_cons]
      omega
  | unknown unknown first =>
    refine .unknown (unknownEscape_pair.2 (.inr ⟨_, rfl, unknown⟩)) ?_
    intro i earlier e unknown
    obtain ⟨j, rfl, inside⟩ := behind unknown
    exact first j (by omega) e inside

theorem Lexer.Inside.resolves (inside : Inside quote body) (done : Text) :
    Resolves body done (Literal.resolve body done) := by
  induction inside generalizing done with
  | nil => exact .value (by simp [UnknownEscape, Escapes]) (by simp [escapeCount])
  | @plain b body _ other _ ih =>
    unfold Literal.resolve
    rw [if_neg other]
    exact (ih _).plain other
  | @pair b body _ ih =>
    unfold Literal.resolve
    rw [if_pos rfl]
    dsimp only
    cases value : Literal.escapeValue b with
    | some v =>
      have known : b ∈ escapable := by
        refine Decidable.byContradiction fun unknown => ?_
        rw [(escapeValue_eq_none b).2 unknown] at value
        cases value
      exact (ih _).pair known
    | none =>
      have unknown := (escapeValue_eq_none b).1 value
      exact .unknown (unknownEscape_pair.2 (.inl ⟨rfl, rfl, unknown⟩)) (by simp)

theorem resolve_of_free (free : backslash ∉ t) (done : Text) :
    Literal.resolve t done = .ok (done.reverse ++ t) := by
  induction t generalizing done with
  | nil => simp [Literal.resolve]
  | cons b t ih =>
    obtain ⟨other, free⟩ := not_or.1 (free ∘ List.mem_cons.2)
    unfold Literal.resolve
    rw [if_neg (Ne.symm other), ih free]
    simp

/-- Unescaping with a shortcut: a body without a backslash is its own value. -/
def Literal.unescapeAtOnce (lexeme : Text) : Except LiteralFault Text :=
  if lexeme.length < 2 then .error .malformed
  else if backslash ∈ lexeme.tail.dropLast then Literal.resolve lexeme.tail.dropLast []
  else .ok lexeme.tail.dropLast

theorem Literal.unescapeAtOnce_eq (lexeme : Text) : unescapeAtOnce lexeme = unescape lexeme := by
  unfold unescapeAtOnce unescape
  split
  · rfl
  · split
    · rfl
    · next free => exact (resolve_of_free free []).symm

/-! Whole characters -/

/-- The length of a string body and its closing quote, read by whole characters: a backslash shields
the character behind it. `skip` bytes still belong to the character before. -/
def stringByCharacters (quote : Char) : (skip : Nat) → Text → Nat → Option Nat
  | _, [], _ => none
  | skip + 1, _ :: rest, n => stringByCharacters quote skip rest (n + 1)
  | 0, b :: rest, n =>
    if (runeAt b rest).char = quote then some (n + (runeAt b rest).size)
    else if (runeAt b rest).char = '\\' then
      match rest with
      | [] => none
      | b :: rest => stringByCharacters quote ((runeAt b rest).size - 1) rest (n + 2)
    else stringByCharacters quote ((runeAt b rest).size - 1) rest (n + 1)

/-- Only the first byte of a character is below 0x80, and only where it is alone. -/
theorem high_of_ofChar {c : Char} {tail : Text} (bytes : ofChar c = b :: tail) :
    (tail = [] ∧ c = Char.ofNat b.toNat) ∨
      0x80 ≤ b.toNat ∧ 0x80 ≤ c.toNat ∧ ∀ x ∈ tail, 0x80 ≤ x.toNat := by
  have byte (n : Nat) (small : n < 256) : (UInt8.ofNat n).toNat = n := by simp; omega
  rw [ofChar_eq] at bytes
  unfold bytesOf at bytes
  have valid : c.toNat < 0xd800 ∨ 0xdfff < c.toNat ∧ c.toNat < 0x110000 := c.valid
  split at bytes
  · next small =>
    obtain ⟨rfl, rfl⟩ := List.cons.inj bytes
    refine .inl ⟨rfl, ?_⟩
    rw [byte _ (by omega), Char.ofNat_toNat]
  · next large =>
    refine .inr ?_
    split at bytes
    · obtain ⟨rfl, rfl⟩ := List.cons.inj bytes
      simp only [List.mem_cons, List.not_mem_nil, or_false, forall_eq]
      rw [byte _ (by omega), byte _ (by omega)]
      omega
    · split at bytes
      · obtain ⟨rfl, rfl⟩ := List.cons.inj bytes
        simp only [List.mem_cons, List.not_mem_nil, or_false, forall_eq_or_imp, forall_eq]
        rw [byte _ (by omega), byte _ (by omega), byte _ (by omega)]
        omega
      · obtain ⟨rfl, rfl⟩ := List.cons.inj bytes
        simp only [List.mem_cons, List.not_mem_nil, or_false, forall_eq_or_imp, forall_eq]
        rw [byte _ (by omega), byte _ (by omega), byte _ (by omega), byte _ (by omega)]
        omega

theorem char_runeAt_eq {q : UInt8} (ascii : q.toNat < 0x80) (b : UInt8) (rest : Text) :
    (runeAt b rest).char = Char.ofNat q.toNat ↔ b = q := by
  have number : ∀ n < 256, (Char.ofNat n).toNat = n := by decide +kernel
  have small := number q.toNat q.toNat_lt
  by_cases low : b.toNat < 0x80
  · rw [runeAt_one b low]
    constructor
    · intro same
      have numbers := congrArg Char.toNat same
      rw [small, number b.toNat b.toNat_lt] at numbers
      exact UInt8.toNat_inj.1 numbers
    · rintro rfl
      rfl
  · have high : 0x80 ≤ (runeAt b rest).char.toNat := by
      have reads := runeAt_reads b rest
      generalize runeAt b rest = r at reads
      cases reads with
      | invalid => decide
      | @char c tail rest bytes =>
        rcases high_of_ofChar bytes with ⟨_, same⟩ | ⟨_, high, _⟩
        · rw [same, number b.toNat b.toNat_lt]
          omega
        · exact high
    refine iff_of_false ?_ ?_
    · intro same
      rw [same, small] at high
      omega
    · rintro rfl
      exact low ascii

/-- What belongs to a character behind its first byte is neither a quote nor a backslash. -/
theorem high_of_mem_take (b : UInt8) (rest : Text) :
    ∀ x ∈ rest.take ((runeAt b rest).size - 1), 0x80 ≤ x.toNat := by
  have reads := runeAt_reads b rest
  generalize runeAt b rest = r at reads
  cases reads with
  | invalid => simp [Rune.invalid]
  | @char c tail rest bytes =>
    rw [Nat.add_sub_cancel, List.take_left]
    rcases high_of_ofChar bytes with ⟨rfl, _⟩ | ⟨_, _, high⟩
    · simp
    · exact high

theorem quote_ascii (known : quote ∈ quotes) : quote.toNat < 0x80 ∧ quote ≠ backslash := by
  simp only [quotes, List.mem_cons, List.not_mem_nil, or_false] at known
  rcases known with rfl | rfl <;> decide

theorem stringFrom_plain (other : b ≠ quote) (plain : b ≠ backslash) (rest : Text) (n : Nat) :
    stringFrom quote (b :: rest) n = stringFrom quote rest (n + 1) := by
  rw [stringFrom.eq_def quote (b :: rest)]
  dsimp only
  rw [if_neg other, if_neg plain]

theorem stringByCharacters_eq (known : quote ∈ quotes) (skip : Nat) (t : Text) (n : Nat)
    (within : ∀ x ∈ t.take skip, 0x80 ≤ x.toNat) :
    stringByCharacters (Char.ofNat quote.toNat) skip t n = stringFrom quote t n := by
  obtain ⟨ascii, shield⟩ := quote_ascii known
  have isQuote := char_runeAt_eq ascii
  have isBackslash : ∀ b rest, (runeAt b rest).char = '\\' ↔ b = backslash :=
    char_runeAt_eq (q := backslash) (by decide)
  fun_induction stringByCharacters (Char.ofNat quote.toNat) skip t n with
  | case1 => rfl
  | case2 skip b rest n ih =>
    rw [List.take_succ_cons] at within
    obtain ⟨high, within⟩ := List.forall_mem_cons.1 within
    have other : b ≠ quote := by
      rintro rfl
      omega
    have plain : b ≠ backslash := by
      rintro rfl
      exact absurd high (by decide)
    rw [ih within, stringFrom_plain other plain]
  | case3 b rest n closing =>
    obtain rfl := (isQuote b rest).1 closing
    rw [runeAt_one b ascii, stringFrom.eq_def b (b :: rest)]
    exact (if_pos rfl).symm
  | case4 b n other shielding =>
    obtain rfl := (isBackslash b []).1 shielding
    rw [stringFrom.eq_def quote [backslash]]
    dsimp only
    rw [if_neg (Ne.symm shield), if_pos rfl]
  | case5 b n c rest other shielding ih =>
    obtain rfl := (isBackslash b (c :: rest)).1 shielding
    rw [ih (high_of_mem_take c rest), stringFrom.eq_def quote (backslash :: c :: rest)]
    dsimp only
    rw [if_neg (Ne.symm shield), if_pos rfl]
  | case6 b rest n other plain ih =>
    have plain : b ≠ backslash := mt (isBackslash b rest).2 plain
    have other : b ≠ quote := mt (isQuote b rest).2 other
    rw [ih (high_of_mem_take b rest), stringFrom_plain other plain]

/-! String tokens -/

theorem Lexer.Lexeme.string_cases {w : Text} (lexeme : Lexeme .string w) :
    ∃ quote body, quote ∈ quotes ∧ Inside quote body ∧ w = quote :: (body ++ [quote]) := by
  have notWord : ∀ entry ∈ TokenKind.keywords, entry.2 ≠ .string := by decide
  have notOperator : ∀ entry ∈ operators, entry.2 ≠ .string := by decide
  cases lexeme with
  | keyword _ known => exact absurd rfl (notWord _ known)
  | string known inside => exact ⟨_, _, known, inside, rfl⟩
  | operator known => exact absurd rfl (notOperator _ known)

/-- What is said of the lexeme of a string: it is found by reading whole characters, the value of its
body is read in one of two ways to the same effect, and it has a value unless one of its escapes is
unknown. The first of these is the one that is reported. -/
structure Unescapes (lexeme : Text) (quote : UInt8) (body : Text) : Prop where
  known : quote ∈ quotes
  split : lexeme = quote :: (body ++ [quote])
  characters : ∀ rest, stringByCharacters (Char.ofNat quote.toNat) 0 (body ++ quote :: rest) 1 =
    some lexeme.length
  shortcut : Literal.unescapeAtOnce lexeme = Literal.unescape lexeme
  fails_iff : (∃ fault, Literal.unescape lexeme = .error fault) ↔ ∃ i e, UnknownEscape body i e
  fault : ∀ fault, Literal.unescape lexeme = .error fault →
    ∃ i e, UnknownEscape body i e ∧ (∀ j < i, ∀ e, ¬ UnknownEscape body j e) ∧
      fault = .unknownEscape e
  value : ∀ s, Literal.unescape lexeme = .ok s → s.length + escapeCount body + 2 = lexeme.length

theorem Lexer.Inside.unescapes (known : quote ∈ quotes) (inside : Inside quote body) :
    Unescapes (quote :: (body ++ [quote])) quote body := by
  have length : (quote :: (body ++ [quote])).length = body.length + 2 := by simp
  have read : Literal.unescape (quote :: (body ++ [quote])) = Literal.resolve body [] := by
    rw [Literal.unescape, if_neg (by omega), List.tail_cons, List.dropLast_concat]
  have resolves := inside.resolves []
  rw [← read] at resolves
  generalize value : Literal.unescape (quote :: (body ++ [quote])) = x at resolves
  refine ⟨known, rfl, fun rest => ?_, Literal.unescapeAtOnce_eq _, ?_, ?_, ?_⟩
  · rw [stringByCharacters_eq known 0 _ 1 (by simp),
      stringFrom_of_inside (quote_ascii known).2 inside, length]
    congr 1
    omega
  all_goals rw [value]
  · cases resolves with
    | value none _ => simpa using none
    | unknown unknown _ => exact iff_of_true ⟨_, rfl⟩ ⟨_, _, unknown⟩
  · rintro fault failed
    cases resolves with
    | value => cases failed
    | unknown unknown first =>
      cases failed
      exact ⟨_, _, unknown, first, rfl⟩
  · rintro s done
    cases resolves with
    | value _ count =>
      cases done
      rw [length]
      simp only [List.length_nil] at count
      omega
    | unknown => cases done

/-- Wherever in a source a string token is read, the value of its lexeme is sought among the same
escapes: no literal is malformed and no escape unfinished, and a value is missing exactly where an
escape is unknown. -/
theorem string_tokens_unescape {file : Text} {c : Cursor} {t : Token}
    (answer : (c.next file).1 = .ok t) (kind : t.kind = .string) :
    ∃ quote body, Unescapes t.lexeme quote body := by
  have answers := next_answers file c
  rw [answer] at answers
  generalize c.rest.drop (gapLength c.rest) = rest at answers
  cases answers with
  | last ends =>
    rw [ends] at kind
    cases kind
  | token _ _ longest =>
    have lexeme := longest.lexeme
    rw [kind] at lexeme
    obtain ⟨quote, body, known, inside, split⟩ := lexeme.string_cases
    rw [split]
    exact ⟨quote, body, inside.unescapes known⟩

/-- Behind the second backslash of a pair stands an escape of which the value sees the first byte
only. -/
theorem string_tokens_unescape_character :
    ∃ t quote body, ((⟨utf8 "'x\\\\\\é'", 0, 1, 0⟩ : Cursor).next []).1 = .ok t ∧ t.kind = .string ∧
      Unescapes t.lexeme quote body ∧ Literal.unescape t.lexeme = .error (.unknownEscape 0xc3) ∧
      ∃ i, UnknownEscape body i 0xc3 := by
  obtain ⟨t, answer, kind, failed⟩ : ∃ t,
      ((⟨utf8 "'x\\\\\\é'", 0, 1, 0⟩ : Cursor).next []).1 = .ok t ∧ t.kind = .string ∧
        Literal.unescape t.lexeme = .error (.unknownEscape 0xc3) := ⟨_, rfl, rfl, rfl⟩
  obtain ⟨quote, body, unescapes⟩ := string_tokens_unescape answer kind
  obtain ⟨i, e, unknown, _, same⟩ := unescapes.fault _ failed
  cases same
  exact ⟨t, quote, body, answer, kind, unescapes, failed, i, unknown⟩

end StackScript
