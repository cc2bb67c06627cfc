import StackScript.Token.Lexer

/-! Places in a source. The bytes before a place say which line it is on and in which column, and
the lines of the source say what stands there. A cursor keeps count of both. -/

namespace StackScript

namespace Text

def lastLine (t : Text) : Text := (t.reverse.takeWhile (· ≠ newline)).reverse

def row (t : Text) : Nat := 1 + t.count newline

def column (t : Text) : Nat := t.lastLine.length

variable (t : Text) (b : UInt8)

theorem lastLine_append_singleton :
    (t ++ [b]).lastLine = if b = newline then [] else t.lastLine ++ [b] := by
  unfold lastLine
  rw [List.reverse_append, List.reverse_singleton, List.singleton_append, List.takeWhile_cons]
  by_cases ends : b = newline
  · simp [ends]
  · simp [ends]

theorem row_append_singleton :
    (t ++ [b]).row = if b = newline then t.row + 1 else t.row := by
  unfold row
  rw [List.count_append, List.count_singleton]
  by_cases ends : b = newline
  · simp [ends, Nat.add_assoc]
  · simp [ends]

theorem column_append_singleton :
    (t ++ [b]).column = if b = newline then 0 else t.column + 1 := by
  unfold column
  rw [lastLine_append_singleton]
  split
  · rfl
  · simp

/-- One more byte while a text is split; the pieces are kept in reverse. -/
def cut (x : Text × List Text) (b : UInt8) : Text × List Text :=
  if b = newline then ([], x.1.reverse :: x.2) else (b :: x.1, x.2)

def pieces (x : Text × List Text) : List Text := (x.1.reverse :: x.2).reverse

theorem splitLines_eq : t.splitLines = pieces (t.foldl cut ([], [])) := rfl

theorem cut_newline (x : Text × List Text) : cut x newline = ([], x.1.reverse :: x.2) := if_pos rfl

theorem cut_of_ne {b : UInt8} (other : b ≠ newline) (x : Text × List Text) :
    cut x b = (b :: x.1, x.2) := if_neg other

theorem pieces_eq (x : Text × List Text) : pieces x = x.2.reverse ++ [x.1.reverse] :=
  List.reverse_cons

theorem getElem?_pieces_of_lt (x : Text × List Text) {i : Nat} (complete : i < x.2.length) :
    (pieces (t.foldl cut x))[i]? = x.2.reverse[i]? := by
  have known {ys : List Text} (y : Text) (complete : i < ys.length) :
      (ys.reverse ++ [y])[i]? = ys.reverse[i]? :=
    List.getElem?_append_left (by simpa using complete)
  induction t generalizing x with
  | nil =>
    rw [List.foldl_nil, pieces_eq]
    exact known _ complete
  | cons b t ih =>
    rw [List.foldl_cons]
    by_cases ends : b = newline
    · have longer : i < (x.1.reverse :: x.2).length := Nat.lt_succ_of_lt complete
      rw [ends, cut_newline, ih _ longer, List.reverse_cons]
      exact known _ complete
    · rw [cut_of_ne ends]
      exact ih _ complete

theorem getElem?_pieces (x : Text × List Text) :
    (pieces (t.foldl cut x))[x.2.length]? = some (x.1.reverse ++ t.takeWhile (· ≠ newline)) := by
  induction t generalizing x with
  | nil => simp [pieces_eq]
  | cons b t ih =>
    rw [List.foldl_cons]
    by_cases ends : b = newline
    · rw [ends, cut_newline, getElem?_pieces_of_lt t _ (Nat.lt_succ_self _)]
      simp
    · rw [cut_of_ne ends, ih]
      simp [ends]

theorem foldl_cut :
    (t.foldl cut ([], [])).1 = t.lastLine.reverse ∧
      (t.foldl cut ([], [])).2.length = t.count newline := by
  -- The text grows at its end, so the induction is on its reverse.
  have reversed (r : Text) : (r.reverse.foldl cut ([], [])).1 = r.takeWhile (· ≠ newline) ∧
      (r.reverse.foldl cut ([], [])).2.length = r.count newline := by
    induction r with
    | nil => exact ⟨rfl, rfl⟩
    | cons b r ih =>
      rw [List.reverse_cons, List.foldl_append, List.foldl_cons, List.foldl_nil]
      by_cases ends : b = newline
      · rw [ends, cut_newline, List.length_cons, ih.2, List.count_cons_self]
        exact ⟨by simp, rfl⟩
      · rw [cut_of_ne ends, ih.1, ih.2, List.count_cons_of_ne ends, List.takeWhile_cons]
        exact ⟨by simp [ends], rfl⟩
  have all := reversed t.reverse
  rw [List.reverse_reverse, List.count_reverse] at all
  unfold lastLine
  rwa [List.reverse_reverse]

theorem getElem?_splitLines (before after : Text) :
    (before ++ after).splitLines[before.row - 1]? =
      some (before.lastLine ++ after.takeWhile (· ≠ newline)) := by
  obtain ⟨current, complete⟩ := before.foldl_cut
  have found := getElem?_pieces after (before.foldl cut ([], []))
  rw [current, complete, List.reverse_reverse] at found
  rw [splitLines_eq, List.foldl_append, row, Nat.add_sub_cancel_left]
  exact found

theorem length_splitLines : t.splitLines.length = t.count newline + 1 := by
  rw [splitLines_eq, pieces_eq, List.length_append, List.length_reverse, t.foldl_cut.2]
  rfl

theorem exists_before {n : Nat} (inside : n ≤ t.count newline) :
    ∃ before after, t = before ++ after ∧ before.count newline = n ∧
      (before = [] ∨ before.getLast? = some newline) := by
  induction n with
  | zero => exact ⟨[], t, rfl, rfl, .inl rfl⟩
  | succ n ih =>
    obtain ⟨before, after, rfl, count, _⟩ := ih (Nat.le_of_succ_le inside)
    have more : newline ∈ after := by
      rw [List.count_append, count] at inside
      exact List.count_pos_iff.1 (by omega)
    obtain ⟨line, after, rfl, short⟩ := List.eq_append_cons_of_mem more
    refine ⟨before ++ (line ++ [newline]), after, by simp, ?_, .inr (by simp)⟩
    simp [count, List.count_eq_zero.2 short]

theorem getLast?_splitLines : t.splitLines.getLast? = some t.lastLine := by
  rw [splitLines_eq, pieces_eq, List.getLast?_concat, t.foldl_cut.1, List.reverse_reverse]

end Text

namespace Cursor

structure Stands (source before : Text) (c : Cursor) : Prop where
  split : source = before ++ c.rest
  offset : c.offset = before.length
  line : c.line = before.row
  lineStart : c.lineStart + before.column = before.length

variable {source before : Text} {c : Cursor}

theorem stands_start (source : Text) : Stands source [] ⟨source, 0, 1, 0⟩ := ⟨rfl, rfl, rfl, rfl⟩

theorem Stands.column (h : c.Stands source before) : c.column = before.column := by
  have offset := h.offset
  have lineStart := h.lineStart
  unfold Cursor.column
  omega

theorem rest_advance (n : Nat) (c : Cursor) : (c.advance n).rest = c.rest.drop n := by
  induction n generalizing c with
  | zero => rfl
  | succ n ih =>
    obtain ⟨rest, offset, line, lineStart⟩ := c
    cases rest with
    | nil => rfl
    | cons b rest =>
      simp only [advance]
      split
      · exact ih _
      · exact ih _

theorem Stands.advance (h : c.Stands source before) (n : Nat) :
    (c.advance n).Stands source (before ++ c.rest.take n) := by
  induction n generalizing c before with
  | zero => simpa [Cursor.advance] using h
  | succ n ih =>
    obtain ⟨rest, offset, line, lineStart⟩ := c
    obtain ⟨split, offsetEq, lineEq, startEq⟩ := h
    cases rest with
    | nil => simpa [Cursor.advance] using ⟨split, offsetEq, lineEq, startEq⟩
    | cons b rest =>
      have row := before.row_append_singleton b
      have column := before.column_append_singleton b
      have step {c : Cursor} (same : c.rest = rest) (stands : c.Stands source (before ++ [b])) :
          (c.advance n).Stands source (before ++ (b :: rest).take (n + 1)) := by
        have further := ih stands
        rwa [same, List.append_assoc, List.singleton_append] at further
      have moved : source = before ++ [b] ++ rest := by simp [split]
      have length : (before ++ [b]).length = offset + 1 := by
        rw [List.length_append, ← offsetEq]
        rfl
      simp only [Cursor.advance]
      split
      · next ends =>
        rw [if_pos ends] at row column
        refine step rfl ⟨moved, length.symm, ?_, ?_⟩
        · rw [row, ← lineEq]
        · rw [column, length, Nat.add_zero]
      · next ends =>
        rw [if_neg ends] at row column
        refine step rfl ⟨moved, length.symm, ?_, ?_⟩
        · rw [row, ← lineEq]
        · rw [column, length, ← Nat.add_assoc, startEq, ← offsetEq]

end Cursor

end StackScript
