import StackScript.Compiler.Basic
import StackScript.Proofs.Tiling

/-! Every span of a source is a window of one of its lines: it begins within the line and is not
empty. Tokens follow each other in the order of their lines. -/

namespace StackScript

open Lexer

/-- A span that lies on a line of a source. Only the place behind a line is not in it. -/
structure Window (file source : Text) (span : Span) : Prop where
  file : span.file = file
  line : 1 ≤ span.line
  start : 0 ≤ span.start
  stop : span.start < span.stop
  text : ∃ text, source.splitLines[(span.line - 1).toNat]? = some text ∧ span.start ≤ text.length

namespace Window

variable {file source : Text} {span other : Span}

theorem join (h : Window file source span) : Window file source (span.join other) := by
  unfold Span.join
  split
  · next wider =>
    have stop := h.stop
    simp only [Bool.and_eq_true, decide_eq_true_eq] at wider
    exact ⟨h.file, h.line, h.start, Int.lt_trans stop wider.2, h.text⟩
  · exact h

theorem line_le (h : Window file source span) : span.line ≤ source.splitLines.length := by
  obtain ⟨text, found, _⟩ := h.text
  have inside := (List.getElem?_eq_some_iff.1 found).1
  have line := h.line
  omega

end Window

theorem Text.row_le_append (t u : Text) : t.row ≤ (t ++ u).row := by
  unfold row
  rw [List.count_append]
  omega

namespace Cursor

variable {file source before : Text} {c : Cursor}

theorem Stands.window (h : c.Stands source before) {stop : Nat} (proper : c.column < stop) :
    Window file source (c.span file c.column stop) := by
  have positive : 1 ≤ c.line := by
    rw [h.line]
    exact Nat.le_add_right 1 _
  have place : ((c.line : Int) - 1).toNat = c.line - 1 := by omega
  have found : source.splitLines[((c.line : Int) - 1).toNat]? =
      some (before.lastLine ++ c.rest.takeWhile (· ≠ Text.newline)) := by
    rw [place]
    exact h.line_at
  have short : c.column ≤ (before.lastLine ++ c.rest.takeWhile (· ≠ Text.newline)).length := by
    rw [List.length_append, h.column]
    exact Nat.le_add_right _ _
  exact ⟨rfl, Int.ofNat_le.2 positive, Int.natCast_nonneg _, Int.ofNat_lt.2 proper, _, found,
    Int.ofNat_le.2 short⟩

theorem stopAfter_lt {b : UInt8} {tail rest : Text} (clear : Clear (b :: tail ++ rest)) (c : Cursor) :
    c.column < c.stopAfter (b :: tail) := by
  have other : b ≠ Text.newline := by
    rintro rfl
    exact clear.blank _ (by decide) ⟨tail ++ rest, rfl⟩
  rw [stopAfter, List.takeWhile_cons_of_pos (by simpa using other), List.length_cons]
  omega

/-- Where a cursor comes to: a window, and a place on its line or behind it. -/
structure Onward (file source before : Text) (span : Span) (c' : Cursor) : Prop where
  window : Window file source span
  line : (before.row : Int) ≤ span.line
  further : ∃ before', c'.Stands source before' ∧ span.line ≤ before'.row

theorem Stands.next_onward (h : c.Stands source before) (file : Text) :
    (∀ t c', c.next file = (.ok t, c') → Onward file source before t.span c') ∧
      ∀ e c', c.next file = (.error e, c') → Window file source e.span := by
  obtain ⟨gap, d, passes, call⟩ := c.exists_call file
  have stands := h.passes passes
  have clear := passes.clear
  have later : (before.row : Int) ≤ d.line := by
    rw [stands.line]
    exact Int.ofNat_le.2 (before.row_le_append _)
  have behind (n : Nat) : ∃ before', (d.advance n).Stands source before' ∧
      (d.line : Int) ≤ before'.row := by
    refine ⟨_, stands.advance n, ?_⟩
    rw [stands.line]
    exact Int.ofNat_le.2 (Text.row_le_append _ _)
  generalize c.next file = answer at call
  cases call with
  | last ends =>
    constructor
    · rintro t c' ⟨⟩
      exact ⟨stands.window (Nat.lt_succ_self _), later, behind 0⟩
    · rintro e c' ⟨⟩
  | token left _ _ =>
    rw [left] at clear
    constructor
    · rintro t c' ⟨⟩
      exact ⟨stands.window (stopAfter_lt clear d), later, behind _⟩
    · rintro e c' ⟨⟩
  | unterminated _ _ =>
    constructor
    · rintro t c' ⟨⟩
    · rintro e c' ⟨⟩
      exact stands.window (Nat.lt_succ_self _)
  | unexpected _ _ positive =>
    constructor
    · rintro t c' ⟨⟩
    · rintro e c' ⟨⟩
      exact stands.window (Nat.lt_add_of_pos_right positive)

end Cursor

structure Windowed (file source before : Text) (ts : List Token) (failure : Option LexicalError) :
    Prop where
  tokens : ∀ t ∈ ts, Window file source t.span ∧ (before.row : Int) ≤ t.span.line
  ordered : ts.Pairwise fun t u => t.span.line ≤ u.span.line
  failure : ∀ e ∈ failure, Window file source e.span

theorem Lexer.tokensFrom_windowed (file : Text) {source before : Text} {c : Cursor}
    (stands : c.Stands source before) (fuel : Nat) (done : List Token) :
    ∃ ts failure, tokensFrom file fuel c done = ⟨done.reverse ++ ts, failure⟩ ∧
      Windowed file source before ts failure := by
  induction fuel generalizing c before done with
  | zero => exact ⟨[], none, by simp [tokensFrom], by simp, .nil, nofun⟩
  | succ fuel ih =>
    obtain ⟨token, fault⟩ := stands.next_onward file
    unfold tokensFrom
    split
    · next e c' next =>
      refine ⟨[], some e, by simp, by simp, .nil, ?_⟩
      rintro _ ⟨⟩
      exact fault e c' next
    · next t c' next =>
      obtain ⟨window, line, before', stands', line'⟩ := token t c' next
      by_cases last : t.kind = .eof
      · rw [if_pos last]
        refine ⟨[t], none, by simp, ?_, List.pairwise_singleton _ _, nofun⟩
        simpa using ⟨window, line⟩
      · rw [if_neg last]
        obtain ⟨ts, failure, lexed, rest⟩ := ih stands' (t :: done)
        refine ⟨t :: ts, failure, by simp [lexed], ?_, ?_, rest.failure⟩
        · refine List.forall_mem_cons.2 ⟨⟨window, line⟩, fun u mem => ?_⟩
          obtain ⟨window', line''⟩ := rest.tokens u mem
          exact ⟨window', by omega⟩
        · refine List.pairwise_cons.2 ⟨fun u mem => ?_, rest.ordered⟩
          have line'' := (rest.tokens u mem).2
          omega

theorem tokens_windowed (file source : Text) :
    Windowed file source [] (Lexer.tokens file source).tokens (Lexer.tokens file source).failure := by
  obtain ⟨ts, failure, lexed, windowed⟩ :=
    tokensFrom_windowed file (Cursor.stands_start source) (source.length + 1) []
  rw [Lexer.tokens, lexed]
  exact windowed

theorem Tiles.ends {file source before rest : Text} {ts : List Token} {failure : Option LexicalError}
    (h : Tiles file source before rest ts failure) (whole : failure = none) :
    ∃ t ∈ ts.getLast?, t.kind = .eof := by
  induction h with
  | last _ placed => exact ⟨_, rfl, placed.kind⟩
  | token _ _ _ _ _ ih =>
    obtain ⟨t, last, kind⟩ := ih whole
    refine ⟨t, ?_, kind⟩
    rw [List.getLast?_cons, last]
    rfl
  | fault => cases whole

theorem withEnd_tokens {file source : Text} {tokens : List Token}
    (lexed : Lexer.tokens file source = ⟨tokens, none⟩) : withEnd file tokens = tokens := by
  obtain ⟨ts, failure, split, tiles⟩ :=
    tokensFrom_tiles file (Cursor.stands_start source) (Nat.lt_succ_self _) []
  have same : (⟨tokens, none⟩ : Lexed) = ⟨ts, failure⟩ := lexed.symm.trans split
  cases same
  obtain ⟨t, last, kind⟩ := tiles.ends rfl
  unfold withEnd
  rw [last]
  exact if_pos kind

end StackScript
