import StackScript.Proofs.Text.Encoding
import StackScript.Token.Lexer

/-! The classes of tokens, told by what their lexemes look like and not by how they are read: words
of a starting character and further ones, digits with or without a point, strings between two equal
quotes, and a fixed table of operators. Every reader of the lexer takes the longest lexeme of its
class. -/

namespace StackScript.Lexer

open Text

/-- A word is made of whole characters. Those that are keywords have kinds of their own. -/
def Word (w : Text) : Prop :=
  ∃ c cs, startsWord c = true ∧ (∀ x ∈ cs, continuesWord x = true) ∧ w = ofChars (c :: cs)

structure Digits (w : Text) : Prop where
  some : w ≠ []
  all : ∀ b ∈ w, isDigit b = true

def point : UInt8 := 0x2e

def quotes : Text := [doubleQuote, singleQuote]

/-- What can stand between two quotes: bytes that are neither that quote nor a backslash, and pairs
of a backslash and any byte. -/
inductive Inside (quote : UInt8) : Text → Prop where
  | nil : Inside quote []
  | plain {b : UInt8} {rest : Text} : b ≠ quote → b ≠ backslash → Inside quote rest →
      Inside quote (b :: rest)
  | pair {b : UInt8} {rest : Text} : Inside quote rest → Inside quote (backslash :: b :: rest)

def operators : List (Text × TokenKind) :=
  ([("(", .leftParen), (")", .rightParen), ("\x7b", .leftBrace), ("\x7d", .rightBrace), ("[", .leftBracket),
   ("]", .rightBracket), (",", .comma), (".", .dot), (";", .semicolon), (":", .colon),
   ("?", .question), ("-", .minus), ("-=", .minusEqual), ("--", .minusMinus), ("+", .plus),
   ("+=", .plusEqual), ("++", .plusPlus), ("*", .star), ("*=", .starEqual), ("/", .slash),
   ("/=", .slashEqual), ("%", .percent), ("%=", .percentEqual), ("!", .bang), ("!=", .bangEqual),
   ("=", .assign), ("==", .equal), ("<", .less), ("<=", .lessEqual), (">", .greater),
   (">=", .greaterEqual)] : List (String × TokenKind)).map fun (s, k) => (utf8 s, k)

inductive Lexeme : TokenKind → Text → Prop where
  | keyword {kind : TokenKind} {w : Text} : Word w → (w, kind) ∈ TokenKind.keywords → Lexeme kind w
  | name {w : Text} : Word w → (∀ kind, (w, kind) ∉ TokenKind.keywords) → Lexeme .identifier w
  | int {w : Text} : Digits w → Lexeme .int w
  | float {whole places : Text} : Digits whole → Digits places →
      Lexeme .float (whole ++ point :: places)
  | string {quote : UInt8} {body : Text} : quote ∈ quotes → Inside quote body →
      Lexeme .string (quote :: (body ++ [quote]))
  | operator {kind : TokenKind} {w : Text} : (w, kind) ∈ operators → Lexeme kind w

/-! Words -/

theorem continuesWord_replacement : continuesWord replacement = false := by decide +kernel

def WordEnds (t : Text) : Prop := ∀ c u, t = ofChar c ++ u → continuesWord c = false

theorem wordFrom_skip (tail rest : Text) (n : Nat) :
    wordFrom tail.length (tail ++ rest) n = wordFrom 0 rest (n + tail.length) := by
  induction tail generalizing n with
  | nil => rfl
  | cons b tail ih =>
    rw [List.length_cons, List.cons_append, wordFrom, ih]
    congr 1
    omega

theorem wordFrom_of_continues {c : Char} (continues : continuesWord c = true) (rest : Text) (n : Nat) :
    wordFrom 0 (ofChar c ++ rest) n = wordFrom 0 rest (n + (ofChar c).length) := by
  obtain ⟨b, tail, bytes, read⟩ := runeAt_ofChar c rest
  rw [bytes, List.cons_append, wordFrom, read]
  dsimp only
  rw [if_pos continues, Nat.add_sub_cancel, wordFrom_skip, List.length_cons]
  congr 1
  omega

theorem wordFrom_of_ends {t : Text} (ends : WordEnds t) (n : Nat) : wordFrom 0 t n = n := by
  cases t with
  | nil => rfl
  | cons b rest =>
    rw [wordFrom]
    refine if_neg ?_
    have reads := runeAt_reads b rest
    revert reads ends
    generalize runeAt b rest = r
    intro ends reads
    cases reads with
    | invalid => simp [Rune.invalid, continuesWord_replacement]
    | char bytes => simp [ends _ _ (by rw [bytes]; rfl)]

theorem exists_wordEnds (t : Text) :
    ∃ cs rest, t = ofChars cs ++ rest ∧ (∀ c ∈ cs, continuesWord c = true) ∧ WordEnds rest := by
  by_cases ends : WordEnds t
  · exact ⟨[], t, rfl, by simp, ends⟩
  · unfold WordEnds at ends
    simp only [Classical.not_forall, Bool.not_eq_false] at ends
    obtain ⟨c, u, rfl, continues⟩ := ends
    obtain ⟨cs, rest, rfl, all, ends⟩ := exists_wordEnds u
    refine ⟨c :: cs, rest, ?_, List.forall_mem_cons.2 ⟨continues, all⟩, ends⟩
    rw [ofChars_cons, List.append_assoc]
termination_by t.length
decreasing_by
  subst_vars
  simp [List.length_pos_iff, ofChar_ne_nil]

theorem wordLength_eq {cs : List Char} {rest : Text} (all : ∀ c ∈ cs, continuesWord c = true)
    (ends : WordEnds rest) : wordLength (ofChars cs ++ rest) = (ofChars cs).length := by
  have counted (n : Nat) : wordFrom 0 (ofChars cs ++ rest) n = n + (ofChars cs).length := by
    induction cs generalizing n with
    | nil => exact wordFrom_of_ends ends n
    | cons c cs ih =>
      obtain ⟨first, others⟩ := List.forall_mem_cons.1 all
      rw [ofChars_cons, List.append_assoc, wordFrom_of_continues first, ih others,
        List.length_append]
      omega
  rw [wordLength, counted, Nat.zero_add]

theorem length_ofChars_le {cs ds : List Char} {t rest : Text} (ends : WordEnds rest)
    (all : ∀ d ∈ ds, continuesWord d = true) (same : ofChars ds ++ t = ofChars cs ++ rest) :
    (ofChars ds).length ≤ (ofChars cs).length := by
  induction ds generalizing cs with
  | nil => exact Nat.zero_le _
  | cons d ds ih =>
    obtain ⟨first, others⟩ := List.forall_mem_cons.1 all
    rw [ofChars_cons, List.append_assoc] at same
    cases cs with
    | nil =>
      rw [ends d _ same.symm] at first
      cases first
    | cons c cs =>
      rw [ofChars_cons, List.append_assoc] at same
      obtain ⟨rfl, after⟩ := ofChar_append_inj same
      rw [ofChars_cons, ofChars_cons, List.length_append, List.length_append]
      exact Nat.add_le_add_left (ih others after) _

/-! Strings -/

/-- A quote with no backslash of its own before it: what stands before can be read in pairs and
bytes other than the backslash. -/
inductive Unescaped (quote : UInt8) : Text → Prop where
  | here {rest : Text} : Unescaped quote (quote :: rest)
  | plain {b : UInt8} {rest : Text} : b ≠ backslash → Unescaped quote rest →
      Unescaped quote (b :: rest)
  | pair {b : UInt8} {rest : Text} : Unescaped quote rest →
      Unescaped quote (backslash :: b :: rest)

variable {quote : UInt8} {t rest body : Text}

theorem stringFrom_of_inside (plain : quote ≠ backslash) (inside : Inside quote body) (rest : Text)
    (n : Nat) : stringFrom quote (body ++ quote :: rest) n = some (n + body.length + 1) := by
  induction inside generalizing n with
  | nil =>
    unfold stringFrom
    exact if_pos rfl
  | plain other shield _ ih =>
    rw [List.cons_append]
    unfold stringFrom
    rw [if_neg other, if_neg shield, ih, List.length_cons]
    congr 1
    omega
  | pair _ ih =>
    rw [List.cons_append, List.cons_append]
    unfold stringFrom
    rw [if_neg plain.symm, if_pos rfl]
    dsimp only
    rw [ih, List.length_cons, List.length_cons]
    congr 1
    omega

theorem exists_inside (quote : UInt8) (t : Text) (n size : Nat) (found : stringFrom quote t n = some size) :
    ∃ body rest, t = body ++ quote :: rest ∧ Inside quote body ∧ size = n + body.length + 1 := by
  revert found
  fun_induction stringFrom quote t n with
  | case1 n => exact nofun
  | case2 rest n =>
    intro found
    cases found
    exact ⟨[], rest, rfl, .nil, rfl⟩
  | case3 n other => exact nofun
  | case4 n b rest other ih =>
    intro found
    obtain ⟨body, after, rfl, inside, length⟩ := ih found
    refine ⟨_ :: b :: body, after, rfl, .pair inside, ?_⟩
    rw [length, List.length_cons, List.length_cons]
    omega
  | case5 b rest n other shield ih =>
    intro found
    obtain ⟨body, after, rfl, inside, length⟩ := ih found
    refine ⟨b :: body, after, rfl, .plain other shield inside, ?_⟩
    rw [length, List.length_cons]
    omega

theorem stringFrom_eq_none (plain : quote ≠ backslash) (n : Nat) : stringFrom quote t n = none ↔ ¬ Unescaped quote t := by
  fun_induction stringFrom quote t n with
  | case1 n => exact iff_of_true rfl nofun
  | case2 rest n => exact iff_of_false nofun fun none => none .here
  | case3 n other =>
    refine iff_of_true rfl fun found => ?_
    cases found with
    | here => exact plain rfl
    | plain shield _ => exact shield rfl
  | case4 n b rest other ih =>
    rw [ih]
    refine not_congr ⟨.pair, fun found => ?_⟩
    cases found with
    | here => exact absurd rfl plain
    | plain shield _ => exact absurd rfl shield
    | pair found => exact found
  | case5 b rest n other shield ih =>
    rw [ih]
    refine not_congr ⟨.plain shield, fun found => ?_⟩
    cases found with
    | here => exact absurd rfl other
    | plain _ found => exact found
    | pair _ => exact absurd rfl shield

/-! Numbers -/

theorem digitsLength_eq (t : Text) : digitsLength t = (t.takeWhile isDigit).length := by
  have counted (n : Nat) : digitsFrom t n = n + (t.takeWhile isDigit).length := by
    induction t generalizing n with
    | nil => rfl
    | cons b t ih =>
      rw [digitsFrom, List.takeWhile_cons]
      split
      · rw [ih, List.length_cons]
        omega
      · rfl
  rw [digitsLength, counted, Nat.zero_add]

/-! Operators -/

def operatorKind : Text → Option TokenKind
  | [a] => singleKind a
  | [a, b] => pairKind a b
  | _ => none

theorem single_mem_operators {b : UInt8} {kind : TokenKind} (h : singleKind b = some kind) :
    ([b], kind) ∈ operators := by
  unfold singleKind at h
  split at h
  all_goals cases h
  all_goals decide

theorem pair_mem_operators {a b : UInt8} {kind : TokenKind} (h : pairKind a b = some kind) :
    ([a, b], kind) ∈ operators := by
  unfold pairKind at h
  split at h
  all_goals cases h
  all_goals decide

theorem mem_operators {w : Text} {kind : TokenKind} :
    (w, kind) ∈ operators ↔ operatorKind w = some kind := by
  constructor
  · have table : ∀ entry ∈ operators, operatorKind entry.1 = some entry.2 := by decide
    exact table (w, kind)
  · unfold operatorKind
    split
    · exact single_mem_operators
    · exact pair_mem_operators
    · exact nofun

theorem operators_head {w : Text} {kind : TokenKind} (h : (w, kind) ∈ operators) :
    ∃ b tail, w = b :: tail ∧ (singleKind b).isSome := by
  have table : ∀ entry ∈ operators, (entry.1.head?.bind singleKind).isSome := by decide
  cases w with
  | nil => cases table _ h
  | cons b tail => exact ⟨b, tail, rfl, table _ h⟩

end StackScript.Lexer
