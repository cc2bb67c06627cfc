import StackScript.Proofs.Lexing.Windows

/-! Calls on one cursor, going on behind faults and past the end. Each call either passes a byte at
least or answers with the end, and behind the end nothing changes any more. The cursor always knows
the line it is on and where that line begins. -/

namespace StackScript

open Lexer

namespace Text

/-- The line that holds a place begins at the front or right behind a line feed, and no line feed
stands between its beginning and the place. -/
structure LineBegins (source : Text) (place start : Nat) : Prop where
  before : start ≤ place
  whole : ∀ i, start ≤ i → i < place → source[i]? ≠ some newline
  behind : start = 0 ∨ source[start - 1]? = some newline

theorem exists_lastLine (t : Text) :
    ∃ front, t = front ++ t.lastLine ∧ newline ∉ t.lastLine ∧
      (front = [] ∨ ∃ more, front = more ++ [newline]) := by
  have reversed := List.takeWhile_append_dropWhile (p := (· ≠ newline)) (l := t.reverse)
  refine ⟨(t.reverse.dropWhile (· ≠ newline)).reverse, ?_, ?_, ?_⟩
  · rw [lastLine, ← List.reverse_append, reversed, List.reverse_reverse]
  · intro mem
    have other := List.all_eq_true.1 List.all_takeWhile _ (List.mem_reverse.1 mem)
    simp at other
  · cases left : t.reverse.dropWhile (· ≠ newline) with
    | nil => exact .inl rfl
    | cons b rest =>
      have ends := List.head?_dropWhile_not (· ≠ newline) t.reverse
      rw [left] at ends
      have same : b = newline := by simpa using ends
      exact .inr ⟨rest.reverse, by rw [List.reverse_cons, same]⟩

end Text

namespace Cursor

variable {source before : Text} {c : Cursor}

theorem Stands.place (h : c.Stands source before) :
    before = source.take c.offset ∧ c.offset ≤ source.length := by
  rw [h.split, h.offset]
  simp

theorem Stands.lineBegins (h : c.Stands source before) :
    source.LineBegins c.offset c.lineStart := by
  obtain ⟨front, split, free, ends⟩ := before.exists_lastLine
  have column : before.column = before.lastLine.length := rfl
  have length := congrArg List.length split
  have start := h.lineStart
  have place := h.offset
  rw [List.length_append] at length
  have begins : c.lineStart = front.length := by omega
  refine ⟨by omega, fun i behind inside found => free ?_, ?_⟩
  · have within : i < before.length := by omega
    rw [h.split, List.getElem?_append_left within, split,
      List.getElem?_append_right (by omega)] at found
    exact List.mem_of_getElem? found
  · rcases ends with rfl | ⟨more, rfl⟩
    · exact .inl begins
    · refine .inr ?_
      rw [h.split, split, begins]
      simp

/-- One call: the cursor passes a byte at least, or nothing but a gap was left. -/
theorem Stands.next_passes (h : c.Stands source before) (file : Text) :
    ∃ passed, (c.next file).2.Stands source (before ++ passed) ∧
      ((∃ t, (c.next file).1 = .ok t ∧ PlacedEnd file source t ∧ (c.next file).2.rest = []) ∨
        passed ≠ [] ∧ ∀ t, (c.next file).1 = .ok t → t.kind ≠ .eof) := by
  obtain ⟨gap, d, passes, call⟩ := c.exists_call file
  have stands := h.passes passes
  have moves {b : UInt8} {rest : Text} {n : Nat} (left : d.rest = b :: rest) (positive : 0 < n) :
      ∃ passed, passed ≠ [] ∧ (d.advance n).Stands source (before ++ passed) := by
    have further := stands.advance n
    rw [left, List.append_assoc] at further
    refine ⟨gap ++ (b :: rest).take n, ?_, further⟩
    cases n with
    | zero => exact absurd positive (Nat.lt_irrefl 0)
    | succ n => simp
  generalize c.next file = answer at call
  cases call with
  | last ends => exact ⟨gap, stands, .inl ⟨_, rfl, stands.placedEnd ends, ends⟩⟩
  | token left _ proper =>
    obtain ⟨passed, some, further⟩ := moves left (Nat.succ_pos _)
    refine ⟨passed, further, .inr ⟨some, ?_⟩⟩
    rintro t ⟨⟩
    exact proper
  | unterminated left _ =>
    obtain ⟨passed, some, further⟩ := moves left (Nat.succ_pos _)
    refine ⟨passed, further, .inr ⟨some, ?_⟩⟩
    rintro t ⟨⟩
  | unexpected left _ positive =>
    obtain ⟨passed, some, further⟩ := moves left positive
    refine ⟨passed, further, .inr ⟨some, ?_⟩⟩
    rintro t ⟨⟩

theorem Stands.next_at_end (h : c.Stands source before) (file : Text) (nothing : c.rest = []) :
    ∃ t, c.next file = (.ok t, c) ∧ PlacedEnd file source t := by
  refine ⟨_, ?_, h.placedEnd nothing⟩
  obtain ⟨rest, offset, line, lineStart⟩ := c
  obtain rfl : rest = [] := nothing
  rfl

end Cursor

theorem PlacedEnd.eq {file source : Text} {t u : Token} (h : PlacedEnd file source t)
    (h' : PlacedEnd file source u) : t = u := by
  obtain ⟨line, last, span⟩ := h.span
  obtain ⟨line', last', span'⟩ := h'.span
  cases last.symm.trans last'
  cases t
  cases u
  simp only [Token.mk.injEq]
  exact ⟨h.kind.trans h'.kind.symm, h.lexeme.trans h'.lexeme.symm, span.trans span'.symm⟩

namespace Lexer

/-- The cursor on a source after some calls, whatever they answered. -/
def cursorAfter (file source : Text) : (calls : Nat) → Cursor
  | 0 => ⟨source, 0, 1, 0⟩
  | calls + 1 => ((cursorAfter file source calls).next file).2

def answerAfter (file source : Text) (calls : Nat) : Except LexicalError Token :=
  ((cursorAfter file source calls).next file).1

def Closes (answer : Except LexicalError Token) : Prop := ∃ t, answer = .ok t ∧ t.kind = .eof

variable {file source : Text} {calls more : Nat} {t : Token}

theorem cursorAfter_succ (file source : Text) (calls : Nat) :
    cursorAfter file source (calls + 1) = ((cursorAfter file source calls).next file).2 := rfl

theorem steps_eq (file source : Text) (count : Nat) :
    steps file count ⟨source, 0, 1, 0⟩ = (List.range count).map (answerAfter file source) := by
  -- the calls that were made before are left out, so the induction is on those to come
  have later (calls : Nat) : steps file count (cursorAfter file source calls) =
      (List.range' calls count).map (answerAfter file source) := by
    induction count generalizing calls with
    | zero => rfl
    | succ count ih =>
      rw [List.range'_succ, List.map_cons, ← ih (calls + 1)]
      rfl
  rw [List.range_eq_range']
  exact later 0

theorem exists_stands (file source : Text) (calls : Nat) :
    ∃ before, (cursorAfter file source calls).Stands source before := by
  induction calls with
  | zero => exact ⟨[], Cursor.stands_start source⟩
  | succ calls ih =>
    obtain ⟨before, stands⟩ := ih
    obtain ⟨passed, further, _⟩ := stands.next_passes file
    exact ⟨_, further⟩

theorem call_cases (file source : Text) (calls : Nat) :
    (∃ t, answerAfter file source calls = .ok t ∧ PlacedEnd file source t ∧
        (cursorAfter file source (calls + 1)).rest = []) ∨
      (cursorAfter file source calls).offset < (cursorAfter file source (calls + 1)).offset ∧
        ¬ Closes (answerAfter file source calls) := by
  obtain ⟨before, stands⟩ := exists_stands file source calls
  obtain ⟨passed, further, ends | ⟨some, goes⟩⟩ := stands.next_passes file
  · exact .inl ends
  · refine .inr ⟨?_, ?_⟩
    · have place := further.offset
      have positive := List.length_pos_iff.2 some
      rw [List.length_append, ← stands.offset] at place
      rw [cursorAfter_succ]
      omega
    · rintro ⟨t, answer, kind⟩
      exact goes t answer kind

theorem offset_mono (file source : Text) (calls : Nat) :
    (cursorAfter file source calls).offset ≤ (cursorAfter file source (calls + 1)).offset := by
  obtain ⟨before, stands⟩ := exists_stands file source calls
  obtain ⟨passed, further, _⟩ := stands.next_passes file
  have place := further.offset
  rw [List.length_append, ← stands.offset] at place
  rw [cursorAfter_succ]
  omega

theorem answer_of_closed (closed : answerAfter file source calls = .ok t) (kind : t.kind = .eof)
    (later : calls ≤ more) : answerAfter file source more = .ok t := by
  rcases call_cases file source calls with ⟨u, answer, placed, nothing⟩ | ⟨_, goes⟩
  · cases answer.symm.trans closed
    suffices ends : answerAfter file source more = .ok t ∧
        (cursorAfter file source (more + 1)).rest = [] from ends.1
    induction later with
    | refl => exact ⟨closed, nothing⟩
    | @step more _ ih =>
      obtain ⟨_, nothing⟩ := ih
      obtain ⟨_, stands⟩ := exists_stands file source (more + 1)
      obtain ⟨v, next, placed'⟩ := stands.next_at_end file nothing
      rw [answerAfter, cursorAfter_succ file source (more + 1), next, placed.eq placed']
      exact ⟨rfl, nothing⟩
  · exact absurd ⟨t, closed, kind⟩ goes

theorem closes_or_passes (file source : Text) (calls : Nat) :
    (∃ earlier < calls, Closes (answerAfter file source earlier)) ∨
      calls ≤ (cursorAfter file source calls).offset := by
  induction calls with
  | zero => exact .inr (Nat.zero_le _)
  | succ calls ih =>
    rcases ih with ⟨earlier, before, closes⟩ | passed
    · exact .inl ⟨earlier, Nat.lt_succ_of_lt before, closes⟩
    · rcases call_cases file source calls with ⟨t, answer, placed, _⟩ | ⟨further, _⟩
      · exact .inl ⟨calls, Nat.lt_succ_self calls, t, answer, placed.kind⟩
      · exact .inr (by omega)

theorem exists_closing (file source : Text) :
    ∃ calls ≤ source.length, Closes (answerAfter file source calls) := by
  obtain ⟨_, stands⟩ := exists_stands file source (source.length + 1)
  have inside := stands.place.2
  rcases closes_or_passes file source (source.length + 1) with ⟨calls, few, closes⟩ | beyond
  · exact ⟨calls, Nat.le_of_lt_succ few, closes⟩
  · omega

end Lexer

/-- Calls on one cursor, as many as one likes: the place in the source never goes back and never
leaves the source, every call that does not answer with the end passes a byte, the end is answered
by one of the first calls and by every call behind it in the same way, and the cursor knows its line
and where it begins. -/
theorem every_call_advances_or_ends (file source : Text) :
    (∀ count, steps file count ⟨source, 0, 1, 0⟩ =
        (List.range count).map (answerAfter file source)) ∧
      (∀ calls, (cursorAfter file source calls).offset ≤ (cursorAfter file source (calls + 1)).offset ∧
        (cursorAfter file source calls).offset ≤ source.length ∧
        (¬ Closes (answerAfter file source calls) →
          (cursorAfter file source calls).offset < (cursorAfter file source (calls + 1)).offset)) ∧
      (∃ calls ≤ source.length, ∃ t, t.kind = .eof ∧
        ∀ more, calls ≤ more → answerAfter file source more = .ok t) ∧
      (∀ calls t, answerAfter file source calls = .ok t → t.kind = .eof →
        ∀ more, calls ≤ more → answerAfter file source more = .ok t) ∧
      ∀ calls, let c := cursorAfter file source calls
        c.line = 1 + (source.take c.offset).count Text.newline ∧
          source.LineBegins c.offset c.lineStart := by
  refine ⟨steps_eq file source, fun calls => ?_, ?_, ?_, fun calls => ?_⟩
  · obtain ⟨_, stands⟩ := exists_stands file source calls
    refine ⟨offset_mono file source calls, stands.place.2, fun goes => ?_⟩
    rcases call_cases file source calls with ⟨t, answer, placed, _⟩ | ⟨further, _⟩
    · exact absurd ⟨t, answer, placed.kind⟩ goes
    · exact further
  · obtain ⟨calls, few, t, closed, kind⟩ := exists_closing file source
    exact ⟨calls, few, t, kind, fun _ => answer_of_closed closed kind⟩
  · exact fun calls t closed kind more => answer_of_closed closed kind
  · obtain ⟨before, stands⟩ := exists_stands file source calls
    obtain ⟨taken, _⟩ := stands.place
    refine ⟨?_, stands.lineBegins⟩
    rw [← taken]
    exact stands.line

end StackScript
