import StackScript.Code.Chunk

/-! The line table. Its ranges lie one behind the other and cover the code, and their lines go up:
a byte has the line it was written for, or the last line before where that one is higher. -/

namespace StackScript

def lineIn (entries : List LineEntry) (offset : Int) : Int :=
  ((entries.find? fun e => e.start ≤ offset && offset < e.stop).map (·.line)).getD 0

theorem Chunk.lineAt_eq (c : Chunk) (offset : Int) : c.lineAt offset = lineIn c.lines.toList offset := by
  rw [lineAt, lineIn, Array.find?_toList]

inductive Ruled : (size : Nat) → List LineEntry → Prop where
  | nil : Ruled 0 []
  | snoc {size stop : Nat} {entries : List LineEntry} {line : Int} : Ruled size entries →
      size < stop → (∀ e ∈ entries, e.line < line) →
      Ruled stop (entries ++ [⟨line, size, stop⟩])

namespace Ruled

variable {size : Nat} {entries : List LineEntry}

theorem find?_beyond (h : Ruled size entries) {offset : Nat} (beyond : size ≤ offset) :
    entries.find? (fun e => e.start ≤ (offset : Int) && (offset : Int) < e.stop) = none := by
  induction h with
  | nil => rfl
  | @snoc size stop entries line _ more _ ih =>
    rw [List.find?_append, ih (by omega), Option.none_or, List.find?_singleton, if_neg]
    simp
    omega

theorem find?_inside (h : Ruled size entries) {offset : Nat} (inside : offset < size) :
    ∃ e ∈ entries,
      entries.find? (fun e => e.start ≤ (offset : Int) && (offset : Int) < e.stop) = some e := by
  induction h with
  | nil => exact absurd inside (Nat.not_lt_zero _)
  | @snoc size stop entries line ruled more _ ih =>
    rw [List.find?_append]
    by_cases earlier : offset < size
    · obtain ⟨e, mem, found⟩ := ih earlier
      exact ⟨e, List.mem_append_left _ mem, by rw [found]; rfl⟩
    · refine ⟨_, List.mem_append_right _ (List.mem_singleton_self _), ?_⟩
      rw [ruled.find?_beyond (Nat.not_lt.1 earlier), Option.none_or, List.find?_singleton, if_pos]
      simp
      omega

theorem exists_lineIn (h : Ruled size entries) {offset : Nat} (inside : offset < size) :
    ∃ e ∈ entries, lineIn entries offset = e.line := by
  obtain ⟨e, mem, found⟩ := h.find?_inside inside
  exact ⟨e, mem, by rw [lineIn, found]; rfl⟩

theorem lineIn_snoc (h : Ruled size entries) (e : LineEntry) {offset : Nat} (inside : offset < size) :
    lineIn (entries ++ [e]) offset = lineIn entries offset := by
  obtain ⟨e, _, found⟩ := h.find?_inside inside
  rw [lineIn, lineIn, List.find?_append, found]
  rfl

theorem lineIn_last (h : Ruled size entries) (line : Int) {stop offset : Nat} (behind : size ≤ offset)
    (inside : offset < stop) : lineIn (entries ++ [⟨line, size, stop⟩]) offset = line := by
  rw [lineIn, List.find?_append, h.find?_beyond behind, Option.none_or, List.find?_singleton, if_pos]
  · rfl
  · simp
    omega

end Ruled

structure Extends (size : Nat) (line : Int) (before after : List LineEntry) : Prop where
  ruled : Ruled (size + 1) after
  kept : ∀ offset < size, lineIn after offset = lineIn before offset
  fresh : line ≤ lineIn after size
  known : ∀ e ∈ after, e.line = line ∨ ∃ e' ∈ before, e'.line = e.line

theorem extendLines_of_higher {entries : List LineEntry} {e : LineEntry} {line : Int}
    (higher : e.line < line) (size : Nat) :
    (Chunk.extendLines (entries ++ [e]).toArray size line).toList =
      entries ++ [e] ++ [⟨line, size, size + 1⟩] := by
  simp [Chunk.extendLines, higher]

theorem extendLines_of_lower {entries : List LineEntry} {e : LineEntry} {line : Int}
    (lower : ¬ e.line < line) (size : Nat) :
    (Chunk.extendLines (entries ++ [e]).toArray size line).toList =
      entries ++ [{ e with stop := size + 1 }] := by
  have modified (f : LineEntry → LineEntry) : (entries ++ [e]).modify entries.length f =
      entries ++ [f e] := by
    induction entries with
    | nil => rfl
    | cons x entries ih => simpa using ih
  simp [Chunk.extendLines, lower, modified]

theorem Ruled.extends {size : Nat} {lines : Array LineEntry} (h : Ruled size lines.toList)
    (line : Int) : Extends size line lines.toList (Chunk.extendLines lines size line).toList := by
  generalize split : lines.toList = entries at h
  have array : lines = entries.toArray := by rw [← split]
  subst array
  cases h with
  | nil =>
    refine ⟨.snoc .nil (Nat.lt_succ_self 0) (by simp), by simp, ?_, by simp [Chunk.extendLines]⟩
    exact Int.le_of_eq (Ruled.nil.lineIn_last line (Nat.le_refl 0) (Nat.lt_succ_self 0)).symm
  | @snoc start _ entries last ruled more above =>
    have whole : Ruled size (entries ++ [⟨last, start, size⟩]) := .snoc ruled more above
    by_cases higher : last < line
    · rw [extendLines_of_higher higher]
      refine ⟨.snoc whole (Nat.lt_succ_self _) ?_, fun offset inside => whole.lineIn_snoc _ inside, ?_, ?_⟩
      · rintro e mem
        rcases List.mem_append.1 mem with mem | mem
        · exact Int.lt_trans (above e mem) higher
        · cases List.mem_singleton.1 mem
          exact higher
      · exact Int.le_of_eq (whole.lineIn_last line (Nat.le_refl _) (Nat.lt_succ_self _)).symm
      · intro e mem
        rcases List.mem_append.1 mem with mem | mem
        · exact .inr ⟨e, mem, rfl⟩
        · cases List.mem_singleton.1 mem
          exact .inl rfl
    · rw [extendLines_of_lower higher]
      refine ⟨.snoc ruled (Nat.lt_succ_of_lt more) above, fun offset inside => ?_, ?_, ?_⟩
      · by_cases earlier : offset < start
        · rw [ruled.lineIn_snoc _ earlier, ruled.lineIn_snoc _ earlier]
        · have here := Nat.not_lt.1 earlier
          rw [ruled.lineIn_last last here inside]
          exact ruled.lineIn_last last here (Nat.lt_succ_of_lt inside)
      · have found := ruled.lineIn_last last (Nat.le_of_lt more) (Nat.lt_succ_self size)
        exact Int.le_trans (Int.not_lt.1 higher) (Int.le_of_eq found.symm)
      · intro e mem
        rcases List.mem_append.1 mem with mem | mem
        · exact .inr ⟨e, List.mem_append_left _ mem, rfl⟩
        · cases List.mem_singleton.1 mem
          exact .inr ⟨_, List.mem_append_right _ (List.mem_singleton_self _), rfl⟩

end StackScript
