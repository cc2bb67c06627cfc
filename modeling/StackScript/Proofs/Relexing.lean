import StackScript.Proofs.RoundTrip

/-! Layout can be changed without changing the words. A lexeme that was cut from one text is cut from
any other in which a blank or the end follows it, because no lexeme goes on from another one with a
blank. So the lexemes of a source may be set apart by any blanks and comments that begin with a blank. -/

namespace StackScript

open Lexer Text

namespace Lexer

variable {a b : UInt8} {kind other : TokenKind} {w v u r : Text}

theorem blank_not_mem_number (h : Number kind v) (blank : b ∈ blanks) : b ∉ v := by
  have apart : ∀ b ∈ blanks, isDigit b = false ∧ b ≠ point := by decide +kernel
  obtain ⟨notDigit, notPoint⟩ := apart b blank
  have clear {w : Text} (digits : Digits w) : b ∉ w := by
    intro mem
    rw [digits.all b mem] at notDigit
    cases notDigit
  rcases h with ⟨_, digits⟩ | ⟨_, whole, places, digits, digits', rfl⟩
  · exact clear digits
  · simp [clear digits, clear digits', notPoint]

theorem blank_not_mem_operator (h : (v, kind) ∈ operators) (blank : b ∈ blanks) : b ∉ v := by
  have table : ∀ entry ∈ operators, ∀ b ∈ blanks, b ∉ entry.1 := by decide +kernel
  exact table (v, kind) h b blank

/-- No lexeme goes on from another one with a blank. Strings hold blanks, but none behind the quote
that closes them. -/
theorem Lexeme.not_past_blank (h : Lexeme kind (a :: w)) (blank : b ∈ blanks) :
    ¬ Lexeme other (a :: (w ++ b :: r)) := by
  intro h'
  have front : a :: w <+: a :: (w ++ b :: r) := ⟨b :: r, rfl⟩
  have admitted := h.admitted front
  have admitted' := h'.admitted List.prefix_rfl
  have mem : b ∈ a :: (w ++ b :: r) := by simp
  cases announced : lead a with
  | quote =>
    rw [announced] at admitted admitted'
    obtain ⟨_, body, inside, same⟩ := admitted
    obtain ⟨_, body', inside', same'⟩ := admitted'
    obtain rfl := (List.cons.inj same).2
    have plain : a ≠ backslash := by
      rintro rfl
      exact absurd announced (by decide)
    have longer : body' ++ a :: [] = body ++ a :: b :: r := by
      rw [← (List.cons.inj same').2, List.append_assoc, List.singleton_append]
    rw [inside.eq_of_append plain inside' longer] at longer
    simp at longer
  | operator =>
    rw [announced] at admitted'
    exact blank_not_mem_operator admitted' blank mem
  | digit =>
    rw [announced] at admitted'
    exact blank_not_mem_number admitted' blank mem
  | other =>
    rw [announced] at admitted admitted'
    obtain ⟨_, ⟨c, cs, _, _, same⟩, _⟩ := admitted
    obtain ⟨_, ⟨d, ds, starts, others, same'⟩, _⟩ := admitted'
    have longer : ofChars (d :: ds) ++ [] = ofChars (c :: cs) ++ b :: r := by
      rw [← same, ← same', List.append_nil, List.cons_append]
    have short := length_ofChars_le (wordEnds_blank blank r)
      (List.forall_mem_cons.2 ⟨by simp [continuesWord, starts], others⟩) longer
    rw [← same, ← same'] at short
    simp only [List.length_cons, List.length_append] at short
    omega

def Ceases (r : Text) : Prop := ∀ b ∈ r.head?, b ∈ blanks

/-- A lexeme that is the longest in one text is the longest wherever a blank or the end follows. -/
theorem Longest.ceases (h : Longest (a :: (w ++ u)) kind (a :: w)) (ends : Ceases r) :
    Longest (a :: (w ++ r)) kind (a :: w) := by
  refine ⟨⟨r, rfl⟩, h.lexeme, fun {other v} lexeme front => ?_, h.only⟩
  refine Nat.le_of_not_lt fun longer => ?_
  obtain ⟨more, rfl⟩ := List.prefix_of_prefix_length_le ⟨r, rfl⟩ front (Nat.le_of_lt longer)
  have after : more <+: r := by
    rw [← List.cons_append] at front
    exact (List.prefix_append_right_inj _).1 front
  obtain ⟨b, more, rfl⟩ := List.exists_cons_of_ne_nil (show more ≠ [] by
    rintro rfl
    simp at longer)
  obtain ⟨rest, rfl⟩ := after
  exact h.lexeme.not_past_blank (ends b rfl) lexeme

/-- No gap begins with a lexeme that a blank or the end follows, if none began with it elsewhere. -/
theorem Clear.ceases (h : Clear (a :: (w ++ u))) (ends : Ceases r) : Clear (a :: (w ++ r)) := by
  have slashed {second : UInt8} (free : ¬ [0x2f, second] <+: a :: (w ++ u))
      (solid : second ∉ blanks) : ¬ [0x2f, second] <+: a :: (w ++ r) := by
    intro front
    obtain ⟨slash, tail⟩ := List.cons_prefix_cons.1 front
    cases w with
    | nil =>
      obtain ⟨rest, rfl⟩ := tail
      exact solid (ends second rfl)
    | cons c w =>
      obtain ⟨same, _⟩ := List.cons_prefix_cons.1 tail
      exact free (List.cons_prefix_cons.2 ⟨slash, List.cons_prefix_cons.2 ⟨same, List.nil_prefix⟩⟩)
  refine ⟨fun b blank front => ?_, slashed h.line (by decide), slashed h.block (by decide)⟩
  obtain ⟨same, _⟩ := List.cons_prefix_cons.1 front
  exact h.blank b blank (List.cons_prefix_cons.2 ⟨same, List.nil_prefix⟩)

theorem Longest.scan_eq (h : Longest (a :: (w ++ u)) kind (a :: w)) :
    scan a (w ++ u) = .found kind (w.length + 1) := by
  have right := scan_right a (w ++ u)
  have proper := scan_proper a (w ++ u)
  cases found : scan a (w ++ u) with
  | found kind' size =>
    rw [found] at right proper
    have taken : ((a :: (w ++ u)).take size).length = size := by
      rw [List.length_take, List.length_cons]
      exact Nat.min_eq_left proper.2.2
    have whole : size = w.length + 1 := by
      have := right.longest h.lexeme h.front
      have := h.longest right.lexeme right.front
      simp only [List.length_cons] at *
      omega
    have same : (a :: (w ++ u)).take size = a :: w := by
      rw [whole, ← List.cons_append]
      exact List.take_left' rfl
    have lexeme := right.lexeme
    rw [same] at lexeme
    rw [h.only lexeme, whole]
  | unterminated =>
    rw [found] at right
    exact absurd right h.not_opensString
  | unexpected r =>
    rw [found] at right
    exact absurd right h.not_senseless

end Lexer

theorem cuts_of_tokensFrom (file : Text) {fuel : Nat} {c : Cursor} (enough : c.rest.length < fuel)
    {done ts : List Token} (lexed : tokensFrom file fuel c done = ⟨ts, none⟩) :
    ∃ us, ts = done.reverse ++ us ∧ Cuts c.rest (us.map Token.word) := by
  induction fuel generalizing c done with
  | zero => exact absurd enough (Nat.not_lt_zero _)
  | succ fuel ih =>
    obtain ⟨gap, d, ⟨_, split, blank, clear⟩, call⟩ := c.exists_call file
    unfold tokensFrom at lexed
    generalize c.next file = answer at call lexed
    cases call with
    | last ends =>
      simp only [if_true, List.reverse_cons] at lexed
      obtain ⟨rfl, _⟩ := Lexed.mk.inj lexed
      rw [ends] at split blank
      rw [List.append_nil] at split
      exact ⟨[_], rfl, split ▸ .last blank⟩
    | @token kind b tail rest left found proper =>
      simp only [proper, if_false] at lexed
      rw [left] at split blank clear
      have behind := Cursor.rest_advance_of_append left
      have shorter : (d.advance (b :: tail).length).rest.length < fuel := by
        rw [split] at enough
        rw [behind]
        simp only [List.length_append, List.length_cons] at enough
        omega
      obtain ⟨us, rfl, cuts⟩ := ih shorter lexed
      rw [behind] at cuts
      rw [split, List.reverse_cons, List.append_assoc, List.singleton_append]
      exact ⟨_, rfl, .token blank clear found cuts⟩
    | unterminated => cases (Lexed.mk.inj lexed).2
    | unexpected => cases (Lexed.mk.inj lexed).2

theorem cuts_of_tokens {file source : Text} {ts : List Token}
    (lexed : Lexer.tokens file source = ⟨ts, none⟩) : Cuts source (ts.map Token.word) := by
  obtain ⟨us, rfl, cuts⟩ := cuts_of_tokensFrom file (Nat.lt_succ_self _) lexed
  exact cuts

/-- A word that was cut from some text. -/
structure Firm (word : TokenKind × Text) : Prop where
  cut : ∃ b tail u, word.2 = b :: tail ∧ Longest (b :: (tail ++ u)) word.1 (b :: tail) ∧
    Clear (b :: (tail ++ u))

theorem Cuts.firm {t : Text} {words : List (TokenKind × Text)} (cuts : Cuts t words) :
    ∃ firm, words = firm ++ [(.eof, [])] ∧ ∀ word ∈ firm, Firm word := by
  induction cuts with
  | last _ => exact ⟨[], rfl, by simp⟩
  | @token gap tail rest b kind words _ clear found _ ih =>
    obtain ⟨firm, rfl, all⟩ := ih
    refine ⟨_ :: firm, rfl, List.forall_mem_cons.2 ⟨⟨b, tail, rest, rfl, ?_, clear⟩, all⟩⟩
    have right := scan_right b (tail ++ rest)
    rw [found] at right
    have taken : (b :: (tail ++ rest)).take (tail.length + 1) = b :: tail := by
      rw [← List.cons_append]
      exact List.take_left' rfl
    rw [Scan.Right, taken] at right
    exact right

/-- A blank, and then blanks and whole comments. -/
def Separator (g : Text) : Prop := ∃ b ∈ blanks, ∃ rest, Gap false rest ∧ g = b :: rest

/-- The text of some lexemes, with a separator between every two of them. -/
inductive Joined : List Text → Text → Prop where
  | nil : Joined [] []
  | one (w : Text) : Joined [w] w
  | more {w v g t : Text} {ws : List Text} : Separator g → Joined (v :: ws) t →
      Joined (w :: v :: ws) (w ++ (g ++ t))

theorem Separator.ceases {g : Text} (h : Separator g) (t : Text) : Ceases (g ++ t) := by
  obtain ⟨b, blank, rest, _, rfl⟩ := h
  intro b' first
  cases first
  exact blank

theorem Separator.gap {g : Text} (h : Separator g) : Gap false g := by
  obtain ⟨b, blank, rest, gap, rfl⟩ := h
  exact .blank blank gap

theorem Firm.cuts {word : TokenKind × Text} (firm : Firm word) {gap rest : Text}
    {words : List (TokenKind × Text)} (blank : Gap false gap) (ends : Ceases rest)
    (cuts : Cuts rest words) : Cuts (gap ++ (word.2 ++ rest)) (word :: words) := by
  obtain ⟨kind, w⟩ := word
  obtain ⟨b, tail, u, rfl, longest, clear⟩ := firm.cut
  have longest := longest.ceases ends
  exact .token blank (clear.ceases ends) longest.scan_eq cuts

/-- Words that were cut from any text are cut from their own lexemes, set apart. -/
theorem Joined.cuts {words : List (TokenKind × Text)} {gap t : Text}
    (joined : Joined (words.map Prod.snd) t) (firm : ∀ word ∈ words, Firm word)
    (blank : Gap false gap) (alone : words = [] → gap = []) :
    Cuts (gap ++ t) (words ++ [(.eof, [])]) := by
  induction words generalizing gap t with
  | nil =>
    cases joined
    rw [alone rfl]
    exact .last .nil
  | cons word words ih =>
    obtain ⟨first, others⟩ := List.forall_mem_cons.1 firm
    cases words with
    | nil =>
      cases joined
      have ends : Ceases [] := by simp [Ceases]
      have last := first.cuts blank ends (.last .nil)
      rwa [List.append_nil] at last
    | cons next words =>
      cases joined with
      | more separator rest =>
        exact first.cuts blank (separator.ceases _) (ih rest others separator.gap nofun)

/-- A source without a fault may be laid out anew. If the lexemes of its tokens are put one behind the
other with any separators between them, then the new text has no fault either, and its tokens are of
the same kinds and lexemes, up to the end. -/
theorem words_outlive_layout (file file' source text : Text)
    (whole : (Lexer.tokens file source).failure = none)
    (joined : Joined (((Lexer.tokens file source).tokens.takeWhile (·.kind ≠ .eof)).map (·.lexeme)) text) :
    (Lexer.tokens file' text).failure = none ∧
      (Lexer.tokens file' text).tokens.map Token.word =
        (Lexer.tokens file source).tokens.map Token.word := by
  obtain ⟨ts, lexed⟩ : ∃ ts, Lexer.tokens file source = ⟨ts, none⟩ := ⟨_, congrArg (Lexed.mk _) whole⟩
  rw [lexed] at joined ⊢
  obtain ⟨firm, words, all⟩ := (cuts_of_tokens lexed).firm
  -- The lexemes before the end are those of the words before the last.
  have before : (ts.takeWhile (·.kind ≠ .eof)).map (·.lexeme) = firm.map Prod.snd := by
    have running : ∀ word ∈ firm, (decide (word.1 ≠ .eof)) = true := by
      intro word mem
      obtain ⟨b, tail, u, same, longest, _⟩ := (all word mem).cut
      have proper := scan_proper b (tail ++ u)
      rw [longest.scan_eq] at proper
      exact decide_eq_true proper.1
    have cut := congrArg (List.takeWhile (fun word => decide (word.1 ≠ .eof))) words
    rw [List.takeWhile_append_of_pos running, List.takeWhile_cons_of_neg (by simp), List.append_nil,
      List.takeWhile_map] at cut
    rw [← cut, List.map_map]
    rfl
  rw [before] at joined
  obtain ⟨us, relexed, same⟩ := tokens_of_cuts file' (joined.cuts all .nil fun _ => rfl)
  rw [List.nil_append] at relexed
  rw [relexed]
  exact ⟨rfl, same.trans words.symm⟩

/-- Two slashes that are no comment, a point that is no part of a number, and a string that looks like
a comment keep apart from comments of all kinds. -/
theorem words_outlive_layout_comments :
    let source := utf8 "a/ /**/2.x'\"//'"
    let text := utf8 "a /\t/***/2\n// a \" b\n.\r/* ' */x '\"//'"
    (Lexer.tokens [] source).failure = none ∧
      Joined (((Lexer.tokens [] source).tokens.takeWhile (·.kind ≠ .eof)).map (·.lexeme)) text ∧
      (Lexer.tokens [] text).failure = none ∧
      (Lexer.tokens [] text).tokens.map Token.word = (Lexer.tokens [] source).tokens.map Token.word := by
  intro source text
  have whole : (Lexer.tokens [] source).failure = none := by decide +kernel
  have lexemes : ((Lexer.tokens [] source).tokens.takeWhile (·.kind ≠ .eof)).map (·.lexeme) =
      ["a", "/", "2", ".", "x", "'\"//'"].map utf8 := by decide +kernel
  have split : text = utf8 "a" ++ ([0x20] ++ (utf8 "/" ++ (0x09 :: (blockOpening ++ ([0x2a] ++
      (blockClosing ++ []))) ++ (utf8 "2" ++ (0x0a :: (lineOpening ++ (utf8 " a \" b" ++ newline :: []))
      ++ (utf8 "." ++ (0x0d :: (blockOpening ++ (utf8 " ' " ++ (blockClosing ++ []))) ++
      (utf8 "x" ++ ([0x20] ++ utf8 "'\"//'"))))))))) := by decide +kernel
  have blank (b : UInt8) (known : b ∈ blanks) {rest : Text} (gap : Gap false rest) :
      Separator (b :: rest) := ⟨b, known, rest, gap, rfl⟩
  have joined : Joined (((Lexer.tokens [] source).tokens.takeWhile (·.kind ≠ .eof)).map (·.lexeme))
      text := by
    rw [lexemes, split]
    refine .more (blank _ (by decide) .nil) (.more (blank _ (by decide) (.block (by decide) .nil)) ?_)
    refine .more (blank _ (by decide) (.line (by decide) .nil)) ?_
    exact .more (blank _ (by decide) (.block (by decide) .nil))
      (.more (blank _ (by decide) .nil) (.one _))
  exact ⟨whole, joined, words_outlive_layout [] [] source text whole joined⟩

end StackScript
