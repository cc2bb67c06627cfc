import StackScript.Proofs.Lexing.Gaps
import StackScript.Proofs.Lexing.Places
import StackScript.Proofs.Lexing.Scans

/-! One call on a cursor. It passes over the gap ahead and answers behind it: with the end, with a
token whose lexeme is cut off there, or with a fault. Only the answer with the end leaves nothing
behind. -/

namespace StackScript.Cursor

open Lexer

/-- The answer at a place where no gap begins, and the cursor behind it. -/
inductive Call (file : Text) (d : Cursor) : Except LexicalError Token × Cursor → Prop where
  | last (ends : d.rest = []) :
      Call file d (.ok ⟨.eof, [], d.span file d.column (d.column + 1)⟩, d)
  | token {kind : TokenKind} {b : UInt8} {tail rest : Text} (left : d.rest = b :: tail ++ rest)
      (found : scan b (tail ++ rest) = .found kind (tail.length + 1)) (proper : kind ≠ .eof) :
      Call file d (.ok ⟨kind, b :: tail, d.span file d.column (d.stopAfter (b :: tail))⟩,
        d.advance (b :: tail).length)
  | unterminated {b : UInt8} {rest : Text} (left : d.rest = b :: rest)
      (found : scan b rest = .unterminated) :
      Call file d (.error ⟨.unterminatedString, d.span file d.column (d.column + 1)⟩,
        d.advance (b :: rest).length)
  | unexpected {b : UInt8} {rest : Text} {r : Text.Rune} (left : d.rest = b :: rest)
      (found : scan b rest = .unexpected r) (some : 0 < r.size) :
      Call file d (.error ⟨.unexpectedCharacter r.char, d.span file d.column (d.column + r.size)⟩,
        d.advance r.size)

theorem next_calls (file : Text) (c : Cursor) :
    Call file (c.advance (gapLength c.rest)) (c.next file) := by
  unfold next
  dsimp only
  generalize c.advance (gapLength c.rest) = d
  cases left : d.rest with
  | nil => exact .last left
  | cons b rest =>
    have proper := scan_proper b rest
    dsimp only
    cases found : scan b rest with
    | found kind size =>
      rw [found] at proper
      obtain ⟨known, positive, short⟩ := proper
      obtain ⟨n, rfl⟩ : ∃ n, size = n + 1 := Nat.exists_eq_add_one.2 positive
      have whole : rest.take n ++ rest.drop n = rest := List.take_append_drop n rest
      have length : (rest.take n).length = n := List.length_take_of_le (Nat.le_of_succ_le_succ short)
      have call := @Call.token file d kind b (rest.take n) (rest.drop n)
      rw [List.cons_append, List.length_cons, whole, length] at call
      exact call left found known
    | unterminated =>
      exact .unterminated left found
    | unexpected r =>
      have positive := Text.runeAt_size_pos b rest
      rw [← scan_eq_unexpected found] at positive
      exact .unexpected left found positive

structure Passes (gap : Text) (c d : Cursor) : Prop where
  place : d = c.advance gap.length
  split : c.rest = gap ++ d.rest
  blank : Gap d.rest.isEmpty gap
  clear : Clear d.rest

theorem Passes.remains {gap : Text} {c d : Cursor} (h : Passes gap c d) :
    c.rest.drop (gapLength c.rest) = d.rest :=
  remains_iff.1 ⟨gap, h.split, h.blank, h.clear⟩

theorem exists_call (file : Text) (c : Cursor) :
    ∃ gap d, Passes gap c d ∧ Call file d (c.next file) := by
  obtain ⟨gap, split, blank, clear⟩ := remains_iff.2 (rfl : c.rest.drop (gapLength c.rest) = _)
  have count := gapLength_eq blank clear
  rw [← split] at count
  have call := c.next_calls file
  have left := rest_advance (gapLength c.rest) c
  rw [← left] at split blank clear
  exact ⟨gap, _, ⟨congrArg (advance · c) count, split, blank, clear⟩, call⟩

variable {source before lexeme rest gap : Text} {c d : Cursor}

theorem rest_advance_of_append (left : c.rest = lexeme ++ rest) :
    (c.advance lexeme.length).rest = rest := by
  rw [rest_advance, left, List.drop_left]

theorem Stands.append (h : c.Stands source before) (left : c.rest = lexeme ++ rest) :
    (c.advance lexeme.length).Stands source (before ++ lexeme) := by
  have further := h.advance lexeme.length
  rwa [left, List.take_left] at further

theorem Stands.passes (h : c.Stands source before) (passes : Passes gap c d) :
    d.Stands source (before ++ gap) := by
  rw [passes.place]
  exact h.append passes.split

end StackScript.Cursor
