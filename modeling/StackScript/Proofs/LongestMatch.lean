import StackScript.Proofs.Lexing.Calls
import StackScript.Proofs.Lexing.Classes

/-! The lexer takes the longest lexeme. The first byte of a lexeme announces its class, so that the
lexemes at the front of a text compete only within one class, and there the reader of the class goes
as far as any of them. -/

namespace StackScript

namespace Lexer

open Text

variable {b : UInt8} {kind : TokenKind} {rest t w : Text}

/-- What the first byte of a lexeme announces. -/
inductive Lead where
  | quote
  | operator
  | digit
  | other
deriving DecidableEq

def lead (b : UInt8) : Lead :=
  if b ∈ quotes then .quote
  else if (singleKind b).isSome then .operator
  else if isDigit b then .digit
  else .other

theorem lead_of_quote (h : b ∈ quotes) : lead b = .quote := if_pos h

theorem lead_of_single : ∀ b : UInt8, (singleKind b).isSome → lead b = .operator :=
  forall_byte (by decide +kernel)

theorem lead_of_digit : ∀ b : UInt8, isDigit b = true → lead b = .digit :=
  forall_byte (by decide +kernel)

/-- The bytes with a class of their own are characters with which no word starts. -/
theorem ascii_of_lead : ∀ b : UInt8, lead b ≠ .other →
    b.toNat < 0x80 ∧ startsWord (Char.ofNat b.toNat) = false :=
  forall_byte (by decide +kernel)

theorem lead_of_word {c : Char} {tail : Text} (starts : startsWord c = true)
    (bytes : ofChar c = b :: tail) : lead b = .other := by
  refine Decidable.byContradiction fun announced => ?_
  obtain ⟨ascii, other⟩ := ascii_of_lead b announced
  obtain ⟨b', tail', bytes', read⟩ := runeAt_ofChar c []
  rw [bytes] at bytes'
  obtain ⟨rfl, rfl⟩ := List.cons.inj bytes'
  rw [runeAt_one b ascii] at read
  obtain rfl : Char.ofNat b.toNat = c := congrArg Rune.char read
  rw [starts] at other
  cases other

theorem unquoted_of_lead (h : lead b ≠ .quote) : ¬ (b = doubleQuote || b = singleQuote) = true := by
  intro quote
  exact h (lead_of_quote (by simpa [quotes] using quote))

theorem singleKind_of_lead (h : lead b ≠ .operator) : singleKind b = none := by
  cases found : singleKind b with
  | none => rfl
  | some kind => exact absurd (lead_of_single b (found ▸ rfl)) h

theorem pairKind_of_lead (h : lead b ≠ .operator) (rest : Text) :
    rest.head?.bind (pairKind b) = none := by
  refine Option.eq_none_iff_forall_ne_some.2 fun kind found => ?_
  obtain ⟨second, _, pair⟩ := Option.bind_eq_some_iff.1 found
  obtain ⟨_, _, split, some⟩ := operators_head (pair_mem_operators pair)
  cases split
  exact h (lead_of_single b some)

def Number (kind : TokenKind) (w : Text) : Prop :=
  kind = .int ∧ Digits w ∨
    kind = .float ∧ ∃ whole places, Digits whole ∧ Digits places ∧ w = whole ++ point :: places

def Lead.Admits (b : UInt8) (rest : Text) (kind : TokenKind) (w : Text) : Lead → Prop
  | .quote => kind = .string ∧ ∃ body, Inside b body ∧ w = b :: (body ++ [b])
  | .operator => (w, kind) ∈ operators
  | .digit => Number kind w
  | .other => startsWord (runeAt b rest).char = true ∧ Word w ∧
      ((w, kind) ∈ TokenKind.keywords ∨
        kind = .identifier ∧ ∀ kind, (w, kind) ∉ TokenKind.keywords)

theorem Word.head (word : Word w) (front : w <+: b :: rest) :
    lead b = .other ∧ startsWord (runeAt b rest).char = true := by
  obtain ⟨c, cs, starts, _, rfl⟩ := word
  obtain ⟨u, split⟩ := front
  obtain ⟨b', tail, bytes, read⟩ := runeAt_ofChar c (ofChars cs ++ u)
  rw [ofChars_cons, bytes, List.cons_append, List.cons_append, List.append_assoc] at split
  obtain ⟨rfl, rfl⟩ := List.cons.inj split
  exact ⟨lead_of_word starts bytes, by rw [read]; exact starts⟩

theorem Digits.head (digits : Digits w) (front : w <+: b :: rest) : lead b = .digit := by
  obtain ⟨some, all⟩ := digits
  obtain ⟨d, w, rfl⟩ := List.exists_cons_of_ne_nil some
  obtain rfl := (List.cons_prefix_cons.1 front).1
  exact lead_of_digit d (all d List.mem_cons_self)

/-- A lexeme at the front of a text belongs to the class that the first byte announces. -/
theorem Lexeme.admitted (h : Lexeme kind w) (front : w <+: b :: rest) :
    (lead b).Admits b rest kind w := by
  cases h with
  | keyword word known =>
    obtain ⟨announced, starts⟩ := word.head front
    rw [announced]
    exact ⟨starts, word, .inl known⟩
  | name word unknown =>
    obtain ⟨announced, starts⟩ := word.head front
    rw [announced]
    exact ⟨starts, word, .inr ⟨rfl, unknown⟩⟩
  | int digits =>
    rw [digits.head front]
    exact .inl ⟨rfl, digits⟩
  | @float whole places digits digits' =>
    rw [digits.head ((List.prefix_append whole _).trans front)]
    exact .inr ⟨rfl, whole, places, digits, digits', rfl⟩
  | @string quote body known inside =>
    obtain rfl := (List.cons_prefix_cons.1 front).1
    rw [lead_of_quote known]
    exact ⟨rfl, body, inside, rfl⟩
  | operator known =>
    obtain ⟨b', tail, rfl, some⟩ := operators_head known
    obtain rfl := (List.cons_prefix_cons.1 front).1
    rw [lead_of_single _ some]
    exact known

/-- The longest lexeme at the front of a text, and the only class that it belongs to. -/
structure Longest (t : Text) (kind : TokenKind) (w : Text) : Prop where
  front : w <+: t
  lexeme : Lexeme kind w
  longest : ∀ {other v}, Lexeme other v → v <+: t → v.length ≤ w.length
  only : ∀ {other}, Lexeme other w → other = kind

/-- A text begins with a quote that nothing closes. -/
def OpensString (t : Text) : Prop := ∃ q ∈ quotes, ∃ body, t = q :: body ∧ ¬ Unescaped q body

/-- A text begins with neither a quote nor a lexeme. -/
structure Senseless (t : Text) : Prop where
  unquoted : ∀ q ∈ quotes, ¬ [q] <+: t
  unread : ∀ {kind w}, Lexeme kind w → ¬ w <+: t

def Scan.Right (t : Text) : Scan → Prop
  | .found kind size => Longest t kind (t.take size)
  | .unterminated => OpensString t
  | .unexpected _ => Senseless t

theorem Inside.eq_of_append {quote : UInt8} {body inner after u : Text} (plain : quote ≠ backslash)
    (inside : Inside quote body) (inside' : Inside quote inner)
    (same : inner ++ quote :: u = body ++ quote :: after) : inner = body := by
  have count := stringFrom_of_inside plain inside' u 0
  rw [same, stringFrom_of_inside plain inside after 0, Option.some.injEq] at count
  exact List.append_inj_left same (by omega)

theorem scan_of_quote (h : b ∈ quotes) (rest : Text) : (scan b rest).Right (b :: rest) := by
  have plain : b ≠ backslash := by
    rintro rfl
    exact absurd h (by decide)
  have known : (b = doubleQuote || b = singleQuote) = true := by simpa [quotes] using h
  unfold scan
  rw [if_pos known]
  cases found : stringFrom b rest 1 with
  | none => exact ⟨b, h, rest, rfl, (stringFrom_eq_none plain 1).1 found⟩
  | some size =>
    obtain ⟨body, after, rfl, inside, rfl⟩ := exists_inside b rest 1 size found
    have cut : b :: (body ++ b :: after) = b :: (body ++ [b]) ++ after := by simp
    have taken : (b :: (body ++ b :: after)).take (1 + body.length + 1) = b :: (body ++ [b]) := by
      rw [cut]
      exact List.take_left' (by simp; omega)
    have only {kind : TokenKind} {w : Text} (lexeme : Lexeme kind w)
        (front : w <+: b :: (body ++ b :: after)) : kind = .string ∧ w = b :: (body ++ [b]) := by
      have admitted := lexeme.admitted front
      rw [lead_of_quote h] at admitted
      obtain ⟨rfl, inner, inside', rfl⟩ := admitted
      obtain ⟨u, split⟩ := front
      rw [List.cons_append, List.append_assoc] at split
      rw [inside.eq_of_append plain inside' (List.cons.inj split).2]
      exact ⟨rfl, rfl⟩
    dsimp only [Scan.Right]
    rw [taken]
    have front : b :: (body ++ [b]) <+: b :: (body ++ b :: after) := ⟨after, cut.symm⟩
    refine ⟨front, .string h inside, fun lexeme front => ?_, fun lexeme => (only lexeme front).1⟩
    exact Nat.le_of_eq (congrArg List.length (only lexeme front).2)

theorem operatorKind_length (found : operatorKind w = some kind) : w.length ≤ 2 := by
  unfold operatorKind at found
  split at found
  · simp
  · simp
  · cases found

theorem scan_of_single {first : TokenKind} (single : singleKind b = some first) (rest : Text) :
    (scan b rest).Right (b :: rest) := by
  have announced := lead_of_single b (single ▸ rfl)
  have operator {kind : TokenKind} {w : Text} (lexeme : Lexeme kind w) (front : w <+: b :: rest) :
      operatorKind w = some kind := by
    have admitted := lexeme.admitted front
    rw [announced] at admitted
    exact mem_operators.1 admitted
  -- Within the table a lexeme has one kind, so only the lengths are left to compare.
  have longest {kind : TokenKind} {w : Text} (found : operatorKind w = some kind)
      (front : w <+: b :: rest)
      (longest : ∀ {other v}, operatorKind v = some other → v <+: b :: rest → v.length ≤ w.length) :
      Longest (b :: rest) kind w := by
    refine ⟨front, .operator (mem_operators.2 found), fun lexeme front => ?_, fun lexeme => ?_⟩
    · exact longest (operator lexeme front) front
    · have same := operator lexeme front
      rw [found, Option.some.injEq] at same
      exact same.symm
  unfold scan
  rw [if_neg (unquoted_of_lead (by simp [announced])), single]
  cases pair : rest.head?.bind (pairKind b) with
  | some kind =>
    obtain ⟨second, head, found⟩ := Option.bind_eq_some_iff.1 pair
    obtain ⟨after, rfl⟩ := List.head?_eq_some_iff.1 head
    exact longest (w := [b, second]) found ⟨after, rfl⟩ fun other _ => operatorKind_length other
  | none =>
    refine longest (w := [b]) single ⟨rest, rfl⟩ fun {other v} found front => ?_
    unfold operatorKind at found
    split at found
    · simp
    · obtain ⟨rfl, after, rfl⟩ := List.cons_prefix_cons.1 front
      rw [List.singleton_append, List.head?_cons, Option.bind_some, found] at pair
      cases pair
    · cases found

theorem Digits.length_le (digits : Digits w) (front : w <+: t) : w.length ≤ digitsLength t := by
  obtain ⟨u, rfl⟩ := front
  rw [digitsLength_eq, List.takeWhile_append_of_pos digits.all, List.length_append]
  exact Nat.le_add_right _ _

theorem digitsLength_le (t : Text) : digitsLength t ≤ t.length := by
  rw [digitsLength_eq]
  exact (List.takeWhile_prefix _).length_le

theorem digits_take (some : digitsLength t ≠ 0) : Digits (t.take (digitsLength t)) := by
  refine ⟨List.ne_nil_of_length_pos ?_, ?_⟩
  · rw [List.length_take_of_le (digitsLength_le t)]
    omega
  · rw [digitsLength_eq, ← List.prefix_iff_eq_take.1 (List.takeWhile_prefix isDigit)]
    exact List.all_eq_true.1 List.all_takeWhile

/-- The whole part of a number with a point is all the digits there are before it. -/
theorem drop_of_float {whole places : Text} (digits : Digits whole)
    (front : whole ++ point :: places <+: t) :
    whole.length = digitsLength t ∧ ∃ u, t.drop (digitsLength t) = point :: u ∧ places <+: u := by
  obtain ⟨u, rfl⟩ := front
  have length : digitsLength (whole ++ point :: places ++ u) = whole.length := by
    rw [digitsLength_eq, List.append_assoc, List.takeWhile_append_of_pos digits.all,
      List.cons_append, List.takeWhile_cons_of_neg (by decide), List.append_nil]
  rw [length, List.append_assoc, List.drop_left]
  exact ⟨rfl, places ++ u, rfl, u, rfl⟩

section

variable (numbers : ∀ {kind w}, Lexeme kind w → w <+: t → Number kind w)
  (some : digitsLength t ≠ 0)

include numbers some

theorem longest_int (pointless : ∀ {places u}, Digits places →
    t.drop (digitsLength t) = point :: u → ¬ places <+: u) :
    Longest t .int (t.take (digitsLength t)) := by
  have only {kind : TokenKind} {w : Text} (lexeme : Lexeme kind w) (front : w <+: t) :
      kind = .int ∧ Digits w := by
    rcases numbers lexeme front with int | ⟨_, whole, places, digits, digits', rfl⟩
    · exact int
    · obtain ⟨_, u, behind, after⟩ := drop_of_float digits front
      exact absurd after (pointless digits' behind)
  have front := List.take_prefix (digitsLength t) t
  refine ⟨front, .int (digits_take some), fun lexeme front => ?_, fun lexeme => ?_⟩
  · rw [List.length_take_of_le (digitsLength_le t)]
    exact (only lexeme front).2.length_le front
  · exact (only lexeme front).1

theorem longest_float {u : Text} (behind : t.drop (digitsLength t) = point :: u)
    (places : digitsLength u ≠ 0) :
    Longest t .float (t.take (digitsLength t + 1 + digitsLength u)) := by
  have taken : t.take (digitsLength t + 1 + digitsLength u) =
      t.take (digitsLength t) ++ point :: u.take (digitsLength u) := by
    rw [Nat.add_assoc, List.take_add, behind, Nat.add_comm 1, List.take_succ_cons]
  have length : (t.take (digitsLength t + 1 + digitsLength u)).length =
      digitsLength t + 1 + digitsLength u := by
    rw [taken, List.length_append, List.length_cons, List.length_take_of_le (digitsLength_le t),
      List.length_take_of_le (digitsLength_le u)]
    omega
  have front := List.take_prefix (digitsLength t + 1 + digitsLength u) t
  refine ⟨front, taken ▸ .float (digits_take some) (digits_take places), fun lexeme front => ?_,
    fun lexeme => ?_⟩
  · rw [length]
    rcases numbers lexeme front with ⟨_, digits⟩ | ⟨_, whole, places, digits, digits', rfl⟩
    · have := digits.length_le front
      omega
    · obtain ⟨same, u', behind', after⟩ := drop_of_float digits front
      rw [behind] at behind'
      obtain rfl := (List.cons.inj behind').2
      have := digits'.length_le after
      rw [List.length_append, List.length_cons]
      omega
  · rcases numbers lexeme front with ⟨_, digits⟩ | ⟨float, _⟩
    · have := digits.length_le front
      omega
    · exact float

theorem scanNumber_right : (scanNumber t).Right t := by
  unfold scanNumber
  dsimp only
  split
  · next u behind =>
    split
    · next none =>
      refine longest_int numbers some fun digits behind' front => ?_
      rw [behind] at behind'
      obtain rfl := (List.cons.inj behind').2
      have := digits.length_le front
      have := List.length_pos_iff.2 digits.some
      omega
    · next places => exact longest_float numbers some behind places
  · next pointless => exact longest_int numbers some fun _ behind => absurd behind (pointless _)

end

theorem scan_of_digit (h : isDigit b = true) (rest : Text) : (scan b rest).Right (b :: rest) := by
  have announced := lead_of_digit b h
  unfold scan
  rw [if_neg (unquoted_of_lead (by simp [announced])), pairKind_of_lead (by simp [announced]),
    singleKind_of_lead (by simp [announced])]
  dsimp only
  rw [if_pos h]
  refine scanNumber_right (fun lexeme front => ?_) ?_
  · have admitted := lexeme.admitted front
    rwa [announced] at admitted
  · have first : Digits [b] := ⟨by simp, by simpa using h⟩
    have := first.length_le ⟨rest, rfl⟩
    rw [List.singleton_append, List.length_singleton] at this
    omega

theorem ofWord_of_mem (h : (w, kind) ∈ TokenKind.keywords) : TokenKind.ofWord w = kind := by
  have table : ∀ entry ∈ TokenKind.keywords, TokenKind.ofWord entry.1 = entry.2 := by decide
  exact table (w, kind) h

theorem ofWord_cases (w : Text) : (w, TokenKind.ofWord w) ∈ TokenKind.keywords ∨
    TokenKind.ofWord w = .identifier ∧ ∀ kind, (w, kind) ∉ TokenKind.keywords := by
  unfold TokenKind.ofWord
  cases found : TokenKind.keywords.find? (·.1 = w) with
  | none =>
    refine .inr ⟨rfl, fun kind known => ?_⟩
    have other := List.find?_eq_none.1 found _ known
    simp at other
  | some entry =>
    have same : entry.1 = w := by simpa using List.find?_some found
    subst same
    exact .inl (List.mem_of_find?_eq_some found)

theorem Word.lexeme (word : Word w) : Lexeme (.ofWord w) w := by
  rcases ofWord_cases w with known | ⟨name, unknown⟩
  · exact .keyword word known
  · rw [name]
    exact .name word unknown

theorem exists_startsWord (starts : startsWord (runeAt b rest).char = true) :
    ∃ c tail after, ofChar c = b :: tail ∧ rest = tail ++ after ∧ startsWord c = true := by
  have reads := runeAt_reads b rest
  revert starts
  generalize runeAt b rest = r at reads
  intro starts
  cases reads with
  | invalid =>
    have never := continuesWord_replacement
    rw [continuesWord, show startsWord replacement = true from starts] at never
    cases never
  | @char c tail after bytes => exact ⟨c, tail, after, bytes, rfl, starts⟩

theorem scan_of_other (h : lead b = .other) (rest : Text) : (scan b rest).Right (b :: rest) := by
  have unquoted := unquoted_of_lead (b := b) (by simp [h])
  have notDigit : ¬ isDigit b = true := by
    intro digit
    rw [lead_of_digit b digit] at h
    cases h
  have admits {kind : TokenKind} {w : Text} (lexeme : Lexeme kind w) (front : w <+: b :: rest) :
      Lead.Admits b rest kind w .other := by
    have admitted := lexeme.admitted front
    rwa [h] at admitted
  unfold scan
  rw [if_neg unquoted, pairKind_of_lead (by simp [h]), singleKind_of_lead (by simp [h])]
  dsimp only
  rw [if_neg notDigit]
  split
  · next starts =>
    obtain ⟨c, tail, after, bytes, rfl, first⟩ := exists_startsWord starts
    obtain ⟨cs, after, rfl, all, ends⟩ := exists_wordEnds after
    have split : b :: (tail ++ (ofChars cs ++ after)) = ofChars (c :: cs) ++ after := by
      rw [ofChars_cons, bytes]
      simp
    have every : ∀ x ∈ c :: cs, continuesWord x = true :=
      List.forall_mem_cons.2 ⟨by simp [continuesWord, first], all⟩
    have word : Word (ofChars (c :: cs)) := ⟨c, cs, first, all, rfl⟩
    rw [split] at admits ⊢
    dsimp only [Scan.Right]
    rw [wordLength_eq every ends, List.take_left]
    refine ⟨List.prefix_append _ _, word.lexeme, fun lexeme front => ?_, fun lexeme => ?_⟩
    · obtain ⟨_, ⟨d, ds, starts, others, rfl⟩, _⟩ := admits lexeme front
      obtain ⟨u, same⟩ := front
      refine length_ofChars_le ends (List.forall_mem_cons.2 ⟨?_, others⟩) same
      simp [continuesWord, starts]
    · obtain ⟨_, _, known | ⟨rfl, unknown⟩⟩ := admits lexeme (List.prefix_append _ _)
      · exact (ofWord_of_mem known).symm
      · rcases ofWord_cases (ofChars (c :: cs)) with known | ⟨name, _⟩
        · exact absurd known (unknown _)
        · exact name.symm
  · next other =>
    refine ⟨?_, fun lexeme front => other (admits lexeme front).1⟩
    rintro q known ⟨u, split⟩
    obtain rfl := (List.cons.inj split).1
    rw [lead_of_quote known] at h
    cases h

theorem scan_right (b : UInt8) (rest : Text) : (scan b rest).Right (b :: rest) := by
  by_cases quote : b ∈ quotes
  · exact scan_of_quote quote rest
  · cases single : singleKind b with
    | some kind => exact scan_of_single single rest
    | none =>
      by_cases digit : isDigit b = true
      · exact scan_of_digit digit rest
      · exact scan_of_other (by simp [lead, quote, single, digit]) rest

theorem Inside.unescaped {quote : UInt8} {body : Text} (inside : Inside quote body) (u : Text) :
    Unescaped quote (body ++ quote :: u) := by
  induction inside with
  | nil => exact .here
  | plain _ shield _ ih => exact .plain shield ih
  | pair _ ih => exact .pair ih

theorem Longest.not_opensString (h : Longest t kind w) : ¬ OpensString t := by
  rintro ⟨q, known, body, rfl, never⟩
  have admitted := h.lexeme.admitted h.front
  rw [lead_of_quote known] at admitted
  obtain ⟨_, inner, inside, rfl⟩ := admitted
  obtain ⟨u, split⟩ := h.front
  rw [List.cons_append, List.append_assoc] at split
  rw [← (List.cons.inj split).2] at never
  exact never (inside.unescaped u)

theorem OpensString.not_senseless (h : OpensString t) : ¬ Senseless t := by
  obtain ⟨q, known, body, rfl, _⟩ := h
  exact fun senseless => senseless.unquoted q known ⟨body, rfl⟩

theorem Longest.not_senseless (h : Longest t kind w) : ¬ Senseless t :=
  fun senseless => senseless.unread h.lexeme h.front

inductive Answers : Text → Except LexicalError Token → Prop where
  | last {t : Token} : t.kind = .eof → Answers [] (.ok t)
  | token {rest : Text} {t : Token} : rest ≠ [] → t.kind ≠ .eof → Longest rest t.kind t.lexeme →
      Answers rest (.ok t)
  | opened {rest : Text} {e : LexicalError} : OpensString rest → e.fault = .unterminatedString →
      Answers rest (.error e)
  | unexpected {rest : Text} {e : LexicalError} {x : Char} : rest ≠ [] → Senseless rest →
      e.fault = .unexpectedCharacter x → Answers rest (.error e)

theorem next_answers (file : Text) (c : Cursor) :
    Answers (c.rest.drop (gapLength c.rest)) (c.next file).1 := by
  obtain ⟨gap, d, passes, call⟩ := c.exists_call file
  rw [passes.remains]
  generalize c.next file = answer at call
  cases call with
  | last ends =>
    rw [ends]
    exact .last rfl
  | @token kind b tail rest left found proper =>
    have right := scan_right b (tail ++ rest)
    rw [found, Scan.Right, ← List.cons_append, ← List.length_cons, List.take_left] at right
    rw [left]
    exact .token (by simp) proper right
  | @unterminated b rest left found =>
    have right := scan_right b rest
    rw [found] at right
    rw [left]
    exact .opened right rfl
  | @unexpected b rest r left found _ =>
    have right := scan_right b rest
    rw [found] at right
    rw [left]
    exact .unexpected (by simp) right rfl

end Lexer

open Lexer

/-- Behind the gap the next token is the longest lexeme there, with the kind of its class. The end
is answered when nothing is left, an unterminated string when a quote is never closed, and an
unexpected character when there is no lexeme to take. -/
theorem next_is_longest_match (file : Text) (c : Cursor) :
    ∃ rest, (∀ other, Remains c.rest other ↔ other = rest) ∧
      (∀ t, (c.next file).1 = .ok t → t.kind ≠ .eof → Longest rest t.kind t.lexeme) ∧
      ((∃ t, (c.next file).1 = .ok t ∧ t.kind = .eof) ↔ rest = []) ∧
      ((∃ e, (c.next file).1 = .error e ∧ e.fault = .unterminatedString) ↔ OpensString rest) ∧
      ((∃ e x, (c.next file).1 = .error e ∧ e.fault = .unexpectedCharacter x) ↔
        rest ≠ [] ∧ Senseless rest) := by
  have answers := next_answers file c
  refine ⟨c.rest.drop (gapLength c.rest), fun other => remains_iff.trans eq_comm, ?_⟩
  generalize c.rest.drop (gapLength c.rest) = rest at answers
  generalize (c.next file).1 = answer at answers
  cases answers with
  | @last t kind =>
    have notOpened : ¬ OpensString [] := by
      rintro ⟨q, _, body, split, _⟩
      cases split
    exact ⟨by simp [kind], by simp [kind], by simp [notOpened], by simp⟩
  | @token rest t some known longest =>
    have notOpened := longest.not_opensString
    have notSenseless := longest.not_senseless
    exact ⟨by simpa using fun _ => longest, by simp [known, some], by simp [notOpened],
      by simp [notSenseless]⟩
  | @opened rest e opened fault =>
    have some : rest ≠ [] := by
      obtain ⟨q, _, body, rfl, _⟩ := opened
      simp
    exact ⟨by simp, by simp [some], by simp [fault, opened], by simp [fault, opened.not_senseless]⟩
  | @unexpected rest e x some senseless fault =>
    have notOpened : ¬ OpensString rest := fun opened => opened.not_senseless senseless
    exact ⟨by simp, by simp [some], by simp [fault, notOpened], by simp [fault, some, senseless]⟩

-- A point belongs to a number only with digits on both sides.
example : (Lexer.tokens [] (utf8 "1.x1.50===")).tokens.map (·.kind) =
    [.int, .dot, .identifier, .dot, .int, .equal, .assign, .eof] := by decide +kernel

end StackScript
