import StackScript.Proofs.Lexing.Calls

/-! Tokens tile their source. The lexemes stand one behind the other with nothing but gaps between
them, and the span of each token is the window of its line where the lexeme stands. -/

namespace StackScript

open Lexer

/-- The span of a token behind some part of a source is the place of its lexeme. A lexeme of one
line is what the span shows of that line; one of several lines is shown to the end of the first. -/
structure Placed (file source before : Text) (t : Token) : Prop where
  file : t.span.file = file
  line : t.span.line = before.row
  start : t.span.start = before.column
  single : Text.newline ∉ t.lexeme → t.span.stop = t.span.start + t.lexeme.length ∧
    ∃ line, source.splitLines[t.span.line.toNat - 1]? = some line ∧
      (line.drop t.span.start.toNat).take (t.span.stop - t.span.start).toNat = t.lexeme
  several : Text.newline ∈ t.lexeme →
    ∃ line, source.splitLines[t.span.line.toNat - 1]? = some line ∧ t.span.stop = line.length

structure PlacedEnd (file source : Text) (t : Token) : Prop where
  kind : t.kind = .eof
  lexeme : t.lexeme = []
  span : ∃ line, source.splitLines.getLast? = some line ∧
    t.span = ⟨file, source.row, line.length, line.length + 1⟩

/-- A fault behind some part of a source is reported where it begins. -/
structure PlacedFault (file before : Text) (e : LexicalError) : Prop where
  file : e.span.file = file
  line : e.span.line = before.row
  start : e.span.start = before.column

/-- What is left of a source behind some part of it is gaps and tokens up to the end or up to a
fault. -/
inductive Tiles (file source : Text) :
    (before rest : Text) → List Token → Option LexicalError → Prop where
  | last {before gap : Text} {t : Token} : Gap true gap → PlacedEnd file source t →
      Tiles file source before gap [t] none
  | token {before gap rest : Text} {t : Token} {ts : List Token} {failure : Option LexicalError} :
      Gap false gap → t.kind ≠ .eof → t.lexeme ≠ [] → Placed file source (before ++ gap) t →
      Tiles file source (before ++ gap ++ t.lexeme) rest ts failure →
      Tiles file source before (gap ++ (t.lexeme ++ rest)) (t :: ts) failure
  | fault {before gap rest : Text} {e : LexicalError} : Gap false gap → rest ≠ [] →
      PlacedFault file (before ++ gap) e → Tiles file source before (gap ++ rest) [] (some e)

variable {file source before : Text} {c : Cursor}

namespace Cursor

inductive Comes (file source before : Text) (c : Cursor) :
    Except LexicalError Token × Cursor → Prop where
  | last {t : Token} {c' : Cursor} : Gap true c.rest → PlacedEnd file source t →
      Comes file source before c (.ok t, c')
  | token {gap : Text} {t : Token} {c' : Cursor} : c.rest = gap ++ (t.lexeme ++ c'.rest) →
      Gap false gap → t.kind ≠ .eof → t.lexeme ≠ [] → Placed file source (before ++ gap) t →
      c'.Stands source (before ++ gap ++ t.lexeme) → Comes file source before c (.ok t, c')
  | fault {gap rest : Text} {e : LexicalError} {c' : Cursor} : c.rest = gap ++ rest →
      Gap false gap → rest ≠ [] → PlacedFault file (before ++ gap) e →
      Comes file source before c (.error e, c')

theorem Stands.placedEnd (h : c.Stands source before) (nothing : c.rest = []) :
    PlacedEnd file source ⟨.eof, [], c.span file c.column (c.column + 1)⟩ := by
  have split := h.split
  rw [nothing, List.append_nil] at split
  subst split
  refine ⟨rfl, rfl, source.lastLine, source.getLast?_splitLines, ?_⟩
  rw [Cursor.span, h.column, h.line]
  rfl

theorem Stands.line_at (h : c.Stands source before) :
    source.splitLines[c.line - 1]? =
      some (before.lastLine ++ c.rest.takeWhile (· ≠ Text.newline)) := by
  rw [h.split, h.line]
  exact Text.getElem?_splitLines before c.rest

theorem takeWhile_of_single {lexeme : Text} (single : Text.newline ∉ lexeme) (rest : Text) :
    (lexeme ++ rest).takeWhile (· ≠ Text.newline) =
      lexeme ++ rest.takeWhile (· ≠ Text.newline) := by
  refine List.takeWhile_append_of_pos fun b mem => decide_eq_true ?_
  rintro rfl
  exact single mem

theorem takeWhile_of_several {lexeme : Text} (several : Text.newline ∈ lexeme) (rest : Text) :
    (lexeme ++ rest).takeWhile (· ≠ Text.newline) = lexeme.takeWhile (· ≠ Text.newline) := by
  have shorter : (lexeme.takeWhile (· ≠ Text.newline)).length ≠ lexeme.length := by
    intro whole
    have free := List.all_eq_true.1 (List.all_takeWhile (l := lexeme) (p := (· ≠ Text.newline)))
    rw [(List.takeWhile_prefix _).eq_of_length whole] at free
    exact of_decide_eq_true (free _ several) rfl
  rw [List.takeWhile_append, if_neg shorter]

theorem Stands.placed (h : c.Stands source before) {lexeme rest : Text}
    (split : c.rest = lexeme ++ rest) (kind : TokenKind) :
    Placed file source before ⟨kind, lexeme, c.span file c.column (c.stopAfter lexeme)⟩ := by
  have line := h.line_at
  rw [split] at line
  refine ⟨rfl, congrArg _ h.line, congrArg _ h.column, fun single => ?_, fun several => ?_⟩
  · have alone := takeWhile_of_single single []
    rw [List.append_nil, List.takeWhile_nil, List.append_nil] at alone
    have stop : c.stopAfter lexeme = c.column + lexeme.length := by rw [stopAfter, alone]
    have length : ((c.stopAfter lexeme : Int) - c.column).toNat = lexeme.length := by omega
    refine ⟨congrArg _ stop, _, line, ?_⟩
    change (List.drop (c.column : Int).toNat _).take
      ((c.stopAfter lexeme : Int) - c.column).toNat = lexeme
    rw [takeWhile_of_single single, length, Int.toNat_natCast, h.column, Text.column,
      List.drop_left, List.take_left]
  · refine ⟨_, line, ?_⟩
    rw [takeWhile_of_several several, List.length_append]
    exact congrArg (fun n => ((n + _ : Nat) : Int)) h.column

theorem Stands.comes (h : c.Stands source before) (file : Text) :
    Comes file source before c (c.next file) := by
  obtain ⟨gap, d, passes, call⟩ := c.exists_call file
  have stands := h.passes passes
  obtain ⟨_, split, blank, _⟩ := passes
  generalize c.next file = answer at call
  cases call with
  | last ends =>
    rw [ends] at split blank
    rw [List.append_nil] at split
    exact .last (split ▸ blank) (stands.placedEnd ends)
  | @token kind b tail rest left _ proper =>
    rw [left] at blank
    have behind : c.rest = gap ++ (b :: tail ++ (d.advance (b :: tail).length).rest) := by
      rw [rest_advance_of_append left, ← left, split]
    exact .token behind blank proper (List.cons_ne_nil b tail) (stands.placed left kind)
      (stands.append left)
  | unterminated left _ =>
    rw [left] at split blank
    exact .fault split blank (by simp) ⟨rfl, congrArg _ stands.line, congrArg _ stands.column⟩
  | unexpected left _ _ =>
    rw [left] at split blank
    exact .fault split blank (by simp) ⟨rfl, congrArg _ stands.line, congrArg _ stands.column⟩

end Cursor

/-- With fuel for every byte, what a cursor comes to in turn tiles what is left. -/
theorem Lexer.tokensFrom_tiles (file : Text) {fuel : Nat} (stands : c.Stands source before)
    (enough : c.rest.length < fuel) (done : List Token) :
    ∃ ts failure, tokensFrom file fuel c done = ⟨done.reverse ++ ts, failure⟩ ∧
      Tiles file source before c.rest ts failure := by
  induction fuel generalizing c before done with
  | zero => exact absurd enough (Nat.not_lt_zero _)
  | succ fuel ih =>
    have comes := stands.comes file
    unfold tokensFrom
    generalize c.next file = x at comes
    cases comes with
    | @last t c' gap placed =>
      refine ⟨[t], none, ?_, .last gap placed⟩
      simp only [placed.kind, if_true, List.reverse_cons]
    | @token gap t c' split blank known bytes placed further =>
      have shorter : c'.rest.length < fuel := by
        have length := congrArg List.length split
        have positive := List.length_pos_iff.2 bytes
        rw [List.length_append, List.length_append] at length
        omega
      obtain ⟨ts, failure, lexed, tiles⟩ := ih further shorter (t :: done)
      refine ⟨t :: ts, failure, ?_, ?_⟩
      · simp only [known, if_false, lexed, List.reverse_cons, List.append_assoc,
          List.singleton_append]
      · rw [split]
        exact .token blank known bytes placed tiles
    | @fault gap rest e c' split blank more placed =>
      refine ⟨[], some e, by simp, ?_⟩
      rw [split]
      exact .fault blank more placed

/-- The tokens of a source tile it up to its end or its first fault, and every span is exact. -/
theorem tokens_tile_their_source (file source : Text) :
    Tiles file source [] source (Lexer.tokens file source).tokens
      (Lexer.tokens file source).failure := by
  have start := Cursor.stands_start source
  obtain ⟨ts, failure, lexed, tiles⟩ := tokensFrom_tiles file start (Nat.lt_succ_self _) []
  rw [Lexer.tokens, lexed]
  exact tiles

-- A string of two lines is shown to the end of the first, and the comment is never closed.
example : (Lexer.tokens [] (utf8 "x \"a\nb\" /*")).tokens.map (·.span) =
    [⟨[], 1, 0, 1⟩, ⟨[], 1, 2, 4⟩, ⟨[], 2, 5, 6⟩] := by decide

end StackScript
