import StackScript.Proofs.Assembly.LineTable
import StackScript.Proofs.Drafting.Run

/-! What the line table of a chunk tells. However a chunk is written to, and in whatever order the
lines come, the ranges of its table cut the code into pieces of increasing lines, and the line of a
byte is the highest one that was given for it or for a byte before it. -/

namespace StackScript

namespace Chunk

/-- What can be done to a chunk. The last two are a constant with the instruction that loads it and a
constant alone. -/
inductive Edit where
  | write (b : UInt8) (line : Int)
  | writeWide (n : Nat) (line : Int)
  | patchWide (offset n : Nat)
  | load (v : Value) (line : Int)
  | add (v : Value)

/-- A constant is taken as long as there is room for it. The answer is its index. -/
def offer (c : Chunk) (grown : Chunk) : Option Nat × Chunk :=
  if c.hasRoom then (some c.constants.size, grown) else (none, c)

namespace Edit

/-- The answer of an edit that asks for a constant, and the chunk behind the edit. -/
def perform (c : Chunk) : Edit → Option Nat × Chunk
  | .write b line => (none, c.write b line)
  | .writeWide n line => (none, c.writeWide n line)
  | .patchWide offset n => (none, c.patchWide offset n)
  | .load v line => c.offer (c.writeConstant v line)
  | .add v => c.offer (c.addConstant v)

/-- The lines that were given for the bytes that an edit writes, byte by byte. -/
def lines (c : Chunk) : Edit → List Int
  | .write _ line => [line]
  | .writeWide _ line => [line, line]
  | .load _ line => if c.hasRoom then [line, line, line] else []
  | .patchWide _ _ | .add _ => []

end Edit

def after : List Edit → Chunk → Chunk
  | [], c => c
  | e :: edits, c => after edits (e.perform c).2

/-- The lines that were given for the bytes that edits write, byte by byte. -/
def given : List Edit → Chunk → List Int
  | [], _ => []
  | e :: edits, c => e.lines c ++ given edits (e.perform c).2

end Chunk

/-- Ranges, none of them empty, that lie one behind the other between two offsets. -/
def Adjoin : (start : Int) → List LineEntry → (stop : Int) → Prop
  | start, [], stop => start = stop
  | start, e :: entries, stop => e.start = start ∧ e.start < e.stop ∧ Adjoin e.stop entries stop

theorem Adjoin.snoc {start size stop line : Int} {entries : List LineEntry}
    (h : Adjoin start entries size) (more : size < stop) :
    Adjoin start (entries ++ [⟨line, size, stop⟩]) stop := by
  induction entries generalizing start with
  | nil =>
    obtain rfl : start = size := h
    exact ⟨rfl, more, rfl⟩
  | cons e entries ih =>
    obtain ⟨first, some, rest⟩ := h
    exact ⟨first, some, ih rest⟩

namespace Ruled

variable {size : Nat} {entries : List LineEntry}

theorem adjoin (h : Ruled size entries) : Adjoin 0 entries size := by
  induction h with
  | nil => rfl
  | snoc _ more _ ih => exact ih.snoc (Int.ofNat_lt.2 more)

theorem increasing (h : Ruled size entries) : entries.Pairwise (·.line < ·.line) := by
  induction h with
  | nil => exact .nil
  | snoc _ _ above ih =>
    rw [List.pairwise_append]
    refine ⟨ih, List.pairwise_singleton _ _, fun e mem e' last => ?_⟩
    cases List.mem_singleton.1 last
    exact above e mem

theorem lineIn_outside (h : Ruled size entries) {offset : Int}
    (outside : ¬ (0 ≤ offset ∧ offset < size)) : lineIn entries offset = 0 := by
  have none : entries.find? (fun e => e.start ≤ offset && offset < e.stop) = none := by
    induction h with
    | nil => rfl
    | @snoc size stop entries line _ more _ ih =>
      rw [List.find?_append, ih (by omega), Option.none_or, List.find?_singleton, if_neg]
      simp only [Bool.and_eq_true, decide_eq_true_eq]
      omega
  rw [lineIn, none]
  rfl

theorem lineIn_le_last {last offset : Nat} (h : Ruled (last + 1) entries) (inside : offset ≤ last) :
    lineIn entries offset ≤ lineIn entries last := by
  generalize stopped : last + 1 = stop at h
  cases h with
  | nil => omega
  | @snoc size _ entries line ruled more above =>
    have top : lineIn (entries ++ [⟨line, size, stop⟩]) last = line :=
      ruled.lineIn_last line (by omega) (by omega)
    rw [top]
    by_cases earlier : offset < size
    · obtain ⟨e, mem, found⟩ := ruled.exists_lineIn earlier
      rw [ruled.lineIn_snoc _ earlier, found]
      exact Int.le_of_lt (above e mem)
    · exact Int.le_of_eq (ruled.lineIn_last line (Nat.not_lt.1 earlier) (by omega))

end Ruled

/-- A table for bytes for which some lines were given: it shows the highest line so far for each. -/
structure Tells (given : List Int) (entries : List LineEntry) : Prop where
  ruled : Ruled given.length entries
  known : ∀ e ∈ entries, e.line ∈ given
  highest : ∀ n < given.length, (given.take (n + 1)).max? = some (lineIn entries n)

namespace Tells

variable {given : List Int} {table : Array LineEntry} {c : Chunk}

/-- One more byte. A line that does not go up is passed over for the highest one before. -/
theorem extend (h : Tells given table.toList) (line : Int) :
    Tells (given ++ [line]) (Chunk.extendLines table given.length line).toList := by
  have extended := h.ruled.extends line
  have known : ∀ e ∈ (Chunk.extendLines table given.length line).toList, e.line ∈ given ++ [line] := by
    intro e mem
    rcases extended.known e mem with rfl | ⟨e', mem', same⟩
    · exact List.mem_append_right _ (List.mem_singleton_self _)
    · rw [← same]
      exact List.mem_append_left _ (h.known e' mem')
  refine ⟨?_, known, fun n inside => ?_⟩
  · rw [List.length_append, List.length_singleton]
    exact extended.ruled
  rw [List.length_append, List.length_singleton] at inside
  rcases Nat.lt_succ_iff_lt_or_eq.1 inside with earlier | rfl
  · rw [List.take_append_of_le_length earlier, extended.kept n earlier]
    exact h.highest n earlier
  · rw [List.take_of_length_le (by simp), List.max?_eq_some_iff]
    constructor
    · obtain ⟨e, mem, found⟩ := extended.ruled.exists_lineIn (Nat.lt_succ_self given.length)
      rw [found]
      exact known e mem
    · intro other mem
      rcases List.mem_append.1 mem with mem | mem
      · -- An earlier line is no higher than the table was at its byte.
        obtain ⟨n, earlier, rfl⟩ := List.getElem_of_mem mem
        have highest := (List.max?_eq_some_iff.1 (h.highest n earlier)).2 given[n]
          (List.mem_take_iff_getElem.2 ⟨n, by omega, rfl⟩)
        rw [← extended.kept n earlier] at highest
        exact Int.le_trans highest (extended.ruled.lineIn_le_last (Nat.le_of_lt earlier))
      · cases List.mem_singleton.1 mem
        exact extended.fresh

end Tells

/-- A chunk all of whose bytes were written for lines that its table tells. -/
structure Chunk.Follows (c : Chunk) (given : List Int) : Prop where
  size : given.length = c.code.size
  tells : Tells given c.lines.toList

namespace Chunk.Follows

variable {c : Chunk} {given : List Int}

theorem write (h : c.Follows given) (b : UInt8) (line : Int) :
    (c.write b line).Follows (given ++ [line]) := by
  refine ⟨?_, ?_⟩
  · simp [Chunk.write, h.size]
  · have extended := h.tells.extend line
    rw [h.size] at extended
    exact extended

theorem writeWide (h : c.Follows given) (n : Nat) (line : Int) :
    (c.writeWide n line).Follows (given ++ [line, line]) := by
  have twice := (h.write (highByte n) line).write (lowByte n) line
  rwa [List.append_assoc] at twice

theorem patchWide (h : c.Follows given) (offset n : Nat) : (c.patchWide offset n).Follows given :=
  ⟨by simp [Chunk.patchWide, h.size], h.tells⟩

theorem addConstant (h : c.Follows given) (v : Value) : (c.addConstant v).Follows given :=
  ⟨h.size, h.tells⟩

theorem writeConstant (h : c.Follows given) (v : Value) (line : Int) :
    (c.writeConstant v line).Follows (given ++ [line, line, line]) := by
  have loaded := ((h.addConstant v).write Opcode.constant.toByte line).writeWide c.constants.size line
  rwa [List.append_assoc] at loaded

theorem perform (h : c.Follows given) (e : Edit) : (e.perform c).2.Follows (given ++ e.lines c) := by
  cases e with
  | write b line => exact h.write b line
  | writeWide n line => exact h.writeWide n line
  | patchWide offset n =>
    rw [Edit.lines, List.append_nil]
    exact h.patchWide offset n
  | load v line =>
    simp only [Edit.perform, Edit.lines, offer]
    split
    · exact h.writeConstant v line
    · rw [List.append_nil]
      exact h
  | add v =>
    rw [Edit.lines, List.append_nil]
    simp only [Edit.perform, offer]
    split
    · exact h.addConstant v
    · exact h

theorem after (h : c.Follows given) (edits : List Edit) :
    (c.after edits).Follows (given ++ c.given edits) := by
  induction edits generalizing c given with
  | nil =>
    rw [Chunk.given, List.append_nil]
    exact h
  | cons e edits ih =>
    rw [Chunk.given, ← List.append_assoc]
    exact ih (h.perform e)

end Chunk.Follows

namespace Chunk

/-- A byte continues the line of the byte before exactly when both have the same line and it is known. -/
theorem Follows.continuesLine_iff {c : Chunk} {given : List Int} (h : c.Follows given) (offset : Int) :
    c.continuesLine offset = true ↔ ∃ n : Nat, offset = n + 1 ∧ n + 1 < c.code.size ∧
      ∃ line ≠ 0, (given.take (n + 1)).max? = some line ∧ (given.take (n + 2)).max? = some line := by
  have told {n : Nat} (inside : n < c.code.size) : (given.take (n + 1)).max? = some (c.lineAt n) := by
    rw [lineAt_eq]
    exact h.tells.highest n (h.size ▸ inside)
  simp only [continuesLine, Bool.and_eq_true, decide_eq_true_eq]
  constructor
  · rintro ⟨⟨positive, known⟩, same⟩
    obtain ⟨n, rfl⟩ : ∃ n : Nat, offset = n + 1 := ⟨(offset - 1).toNat, by omega⟩
    -- A known line is one of a byte inside the code.
    have inside : n + 1 < c.code.size := by
      refine Decidable.byContradiction fun outside => known ?_
      have ruled := h.tells.ruled
      rw [h.size] at ruled
      rw [lineAt_eq]
      exact ruled.lineIn_outside (by omega)
    refine ⟨n, rfl, inside, c.lineAt (n + 1), known, ?_, told inside⟩
    rw [told (Nat.lt_of_succ_lt inside), same, Int.add_sub_cancel]
  · rintro ⟨n, rfl, inside, line, known, before, here⟩
    have first := Option.some.inj ((told (Nat.lt_of_succ_lt inside)).symm.trans before)
    have second : c.lineAt (n + 1) = line := Option.some.inj ((told inside).symm.trans here)
    refine ⟨⟨by omega, by rwa [second]⟩, ?_⟩
    rw [second, Int.add_sub_cancel, first]

/-- Whatever is written to a chunk, and for whatever lines, its line table cuts the code into ranges of
increasing lines. The line of a byte is the highest one that was given for the bytes up to it, and there
is none outside the code; a byte continues a line when the one before has the same. A constant that is
not taken leaves everything as it is, whether it is offered to a chunk or in a compilation. -/
theorem lines_are_highest_so_far :
    (∀ edits : List Edit,
      let c := after edits {}
      let lines := given edits {}
      lines.length = c.code.size ∧
      c.lines.toList.Pairwise (·.line < ·.line) ∧ Adjoin 0 c.lines.toList c.code.size ∧
      (∀ n < c.code.size, (lines.take (n + 1)).max? = some (c.lineAt n)) ∧
      (∀ offset : Int, ¬ (0 ≤ offset ∧ offset < c.code.size) → c.lineAt offset = 0) ∧
      ∀ offset : Int, c.continuesLine offset = true ↔
        ∃ n : Nat, offset = n + 1 ∧ n + 1 < c.code.size ∧ ∃ line ≠ 0,
          (lines.take (n + 1)).max? = some line ∧ (lines.take (n + 2)).max? = some line) ∧
    (∀ (c : Chunk) (v : Value) (line : Int), ∀ e ∈ [Edit.load v line, .add v],
      (e.perform c).1 = none → (e.perform c).2 = c) ∧
    ∀ (d d' : Draft) (v : Value) (t : Token) (g : GivenUp),
      (Build.emitConstant v).run d = .error g d' ∨ (Build.nameConstant t).run d = .error g d' →
      d'.chunk = d.chunk := by
  refine ⟨fun edits => ?_, fun c v line e mem refused => ?_, fun d d' v t g failed => ?_⟩
  · intro c lines
    have blank : ({} : Chunk).Follows [] := ⟨rfl, .nil, by simp, by simp⟩
    have follows : c.Follows lines := blank.after edits
    have ruled := follows.tells.ruled
    rw [follows.size] at ruled
    refine ⟨follows.size, ruled.increasing, ruled.adjoin, fun n inside => ?_, fun offset outside => ?_,
      follows.continuesLine_iff⟩
    · rw [lineAt_eq]
      exact follows.tells.highest n (follows.size ▸ inside)
    · rw [lineAt_eq]
      exact ruled.lineIn_outside outside
  · have refuses {grown : Chunk} (refused : (c.offer grown).1 = none) : (c.offer grown).2 = c := by
      unfold offer at refused ⊢
      split at refused
      · cases refused
      · next full => rw [if_neg full]
    simp only [List.mem_cons, List.not_mem_nil, or_false] at mem
    rcases mem with rfl | rfl
    · exact refuses refused
    · exact refuses refused
  · have reported (t : Token) (fault : SyntaxFault) : (d.report t fault).chunk = d.chunk := by
      unfold Draft.report
      split <;> rfl
    rw [Build.run_emitConstant, Build.run_nameConstant] at failed
    rcases failed with failed | failed
    · split at failed
      · cases failed
      · cases failed
        exact reported _ _
    · split at failed
      · cases failed
      · split at failed
        · cases failed
        · cases failed
          exact reported _ _

/-- Lines that go back and up again, a line that is none, and a pool that is full. -/
theorem lines_are_highest_so_far_backwards :
    let c := after [.write 1 (-2), .write 2 (-3), .writeWide 7 5, .load .none 3, .add .none,
      .patchWide 2 9, .write 4 6] {}
    let full : Chunk := { constants := Array.replicate maxConstants .none }
    c.lines.toList = [⟨-2, 0, 2⟩, ⟨5, 2, 7⟩, ⟨6, 7, 8⟩] ∧
      [c.lineAt (-1), c.lineAt 1, c.lineAt 6, c.lineAt 7, c.lineAt 8] = [0, -2, 5, 6, 0] ∧
      c.lines.toList.Pairwise (·.line < ·.line) ∧ Adjoin 0 c.lines.toList c.code.size ∧
      (Edit.perform full (.load .none 1)).1 = none ∧ (Edit.perform full (.load .none 1)).2 = full := by
  intro c full
  obtain ⟨tables, refusals, _⟩ := lines_are_highest_so_far
  obtain ⟨_, increasing, adjoin, _⟩ := tables [.write 1 (-2), .write 2 (-3), .writeWide 7 5,
    .load .none 3, .add .none, .patchWide 2 9, .write 4 6]
  have refused : (Edit.perform full (.load .none 1)).1 = none := by
    simp [Edit.perform, offer, hasRoom, full]
  exact ⟨by decide +kernel, by decide +kernel, increasing, adjoin, refused,
    refusals full .none 1 _ List.mem_cons_self refused⟩

end Chunk

end StackScript
