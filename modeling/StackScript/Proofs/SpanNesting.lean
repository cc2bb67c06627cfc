import StackScript.Proofs.Assembly.Tracing

/-! The span table nests. Of the constructs that share a place in the code, the table has the
inner ones first, and their ranges are no wider. That is why a scan for the narrowest range, which
knows nothing of constructs and takes the first of equal ones, comes upon the innermost construct
at every offset. -/

namespace StackScript

open Grammar

namespace SpanEntry

def Covers (e : SpanEntry) (offset : Int) : Prop := e.start ≤ offset ∧ offset < e.stop

def Disjoint (e e' : SpanEntry) : Prop := e.stop ≤ e'.start ∨ e'.stop ≤ e.start

def Subrange (e e' : SpanEntry) : Prop := e'.start ≤ e.start ∧ e.stop ≤ e'.stop

end SpanEntry

namespace SpanTable

/-- The first of the narrowest entries that cover an offset. -/
def FirstNarrowest (entries : List SpanEntry) (offset : Int) (e : SpanEntry) : Prop :=
  e.Covers offset ∧ ∃ before after, entries = before ++ e :: after ∧
    (∀ e' ∈ before, e'.Covers offset → e.extent < e'.extent) ∧
    ∀ e' ∈ after, e'.Covers offset → e.extent ≤ e'.extent

def Scanned (entries : List SpanEntry) (offset : Int) : Option SpanEntry → Prop
  | none => ∀ e ∈ entries, ¬ e.Covers offset
  | some e => FirstNarrowest entries offset e

variable {entries : List SpanEntry} {offset : Int} {best : Option SpanEntry}

theorem Scanned.skip {e : SpanEntry} (h : Scanned entries offset best)
    (idle : ∀ b ∈ best, e.Covers offset → b.extent ≤ e.extent)
    (needless : best = none → ¬ e.Covers offset) : Scanned (entries ++ [e]) offset best := by
  cases best with
  | none =>
    intro e' mem
    rcases List.mem_append.1 mem with mem | mem
    · exact h e' mem
    · rw [List.mem_singleton.1 mem]
      exact needless rfl
  | some b =>
    obtain ⟨covers, before, after, rfl, wide, wide'⟩ := h
    refine ⟨covers, before, after ++ [e], by simp, wide, fun e' mem => ?_⟩
    rcases List.mem_append.1 mem with mem | mem
    · exact wide' e' mem
    · rw [List.mem_singleton.1 mem]
      exact idle b rfl

/-- An entry that covers the offset is taken when it is narrower than all before. -/
theorem Scanned.take {e : SpanEntry} (h : Scanned entries offset best) (covers : e.Covers offset)
    (narrow : ∀ b ∈ best, e.extent < b.extent) : Scanned (entries ++ [e]) offset (some e) := by
  refine ⟨covers, entries, [], rfl, fun e' mem covers' => ?_, fun _ mem => nomatch mem⟩
  cases best with
  | none => exact absurd covers' (h e' mem)
  | some b =>
    have short := narrow b rfl
    obtain ⟨_, before, after, rfl, wide, wide'⟩ := h
    rcases List.mem_append.1 mem with mem | mem
    · exact Int.lt_trans short (wide e' mem covers')
    · rcases List.mem_cons.1 mem with rfl | mem
      · exact short
      · exact Int.lt_of_lt_of_le short (wide' e' mem covers')

theorem Scanned.narrower (h : Scanned entries offset best) (e : SpanEntry) :
    Scanned (entries ++ [e]) offset (narrower offset best e) := by
  unfold SpanTable.narrower
  split
  · next outside =>
    have misses : ¬ e.Covers offset := by
      simp only [Bool.or_eq_true, decide_eq_true_eq] at outside
      unfold SpanEntry.Covers
      omega
    exact h.skip (fun _ _ covers => absurd covers misses) fun _ => misses
  · next inside =>
    have covers : e.Covers offset := by
      simp only [Bool.or_eq_true, decide_eq_true_eq] at inside
      unfold SpanEntry.Covers
      omega
    cases best with
    | none => exact h.take covers (by simp)
    | some b =>
      dsimp only
      split
      · next short => exact h.take covers (by simpa using short)
      · next wide => exact h.skip (by simpa using fun _ => Int.not_lt.1 wide) (by simp)

theorem Scanned.foldl (h : Scanned entries offset best) (more : List SpanEntry) :
    Scanned (entries ++ more) offset (more.foldl (SpanTable.narrower offset) best) := by
  induction more generalizing entries best with
  | nil => rwa [List.append_nil]
  | cons e more ih =>
    have next := ih (h.narrower e)
    rwa [List.append_assoc] at next

/-- A lookup finds the first of the narrowest entries, or there is nothing to find. -/
theorem find?_cases (t : SpanTable) (offset : Int) :
    (t.find? offset = none ∧ ∀ e ∈ t.toList, ¬ e.Covers offset) ∨
      ∃ e, FirstNarrowest t.toList offset e ∧ t.find? offset = some e.span := by
  have nothing : Scanned [] offset none := fun _ mem => nomatch mem
  have scanned : Scanned t.toList offset (t.toList.foldl (SpanTable.narrower offset) none) :=
    nothing.foldl t.toList
  rw [find?, ← Array.foldl_toList]
  generalize t.toList.foldl (SpanTable.narrower offset) none = best at scanned
  cases best with
  | none => exact .inl ⟨rfl, scanned⟩
  | some e => exact .inr ⟨e, scanned, rfl⟩

end SpanTable

def Construct.Innermost (constructs : List Construct) (offset : Int) (c : Construct) : Prop :=
  c ∈ constructs ∧ c.Covers offset ∧ ∀ d ∈ constructs, d.Covers offset → d = c ∨ c.Inside d

/-- A span table whose entries belong to constructs, and whose order and ranges tell which of them
stand inside which. -/
structure SpanTable.Nests (t : SpanTable) (code : Array UInt8) (constructs : List Construct) :
    Prop where
  entries : t.toList = constructs.map (·.entry)
  whole : ∀ e ∈ t.toList, ∃ start stop : Nat, e.start = start ∧ e.stop = stop ∧ start < stop ∧
    stop ≤ code.size ∧ Boundary code start ∧ Boundary code stop
  laminar : ∀ e ∈ t.toList, ∀ e' ∈ t.toList, e.Disjoint e' ∨ e.Subrange e' ∨ e'.Subrange e
  narrower_first : ∀ (i j : Nat) (e e' : SpanEntry), t[i]? = some e → t[j]? = some e' →
    e.Subrange e' → ¬ e'.Subrange e → i < j
  inner_first : ∀ (i j : Nat) (c d : Construct), constructs[i]? = some c →
    constructs[j]? = some d → c.start = d.start → c.stop = d.stop → (i < j ↔ c.Inside d)
  first_narrowest : ∀ offset span, t.find? offset = some span ↔
    ∃ e, FirstNarrowest t.toList offset e ∧ e.span = span
  innermost : ∀ offset, (t.find? offset = none ∧ ∀ c ∈ constructs, ¬ c.Covers offset) ∨
    ∃ c : Construct, c.Innermost constructs offset ∧ t.find? offset = some c.span

namespace Construct

variable {constructs : List Construct} {c d : Construct} {i j : Nat} {offset : Int}

theorem precedes_of_lt (ordered : constructs.Pairwise Precedes) (first : constructs[i]? = some c)
    (second : constructs[j]? = some d) (earlier : i < j) : c.Precedes d := by
  obtain ⟨hi, rfl⟩ := List.getElem?_eq_some_iff.1 first
  obtain ⟨hj, rfl⟩ := List.getElem?_eq_some_iff.1 second
  exact List.pairwise_iff_getElem.1 ordered i j hi hj earlier

theorem Precedes.ranges (h : c.Precedes d) :
    c.entry.Disjoint d.entry ∨ c.entry.Subrange d.entry := by
  cases h with
  | apart before => exact .inl (.inl (Int.ofNat_le.2 before))
  | inside _ start stop => exact .inr ⟨Int.ofNat_le.2 start, Int.ofNat_le.2 stop⟩

theorem not_disjoint (code : c.start < c.stop) (within : c.entry.Subrange d.entry) :
    ¬ d.entry.Disjoint c.entry := by
  simp only [SpanEntry.Disjoint, SpanEntry.Subrange, entry] at within ⊢
  omega

end Construct

namespace SpanTable

open Construct

variable {t : SpanTable} {constructs : List Construct} {offset : Int} {c d : Construct}
  {e e' : SpanEntry} {i j : Nat}

theorem getElem?_entries (entries : t.toList = constructs.map (·.entry)) (there : t[i]? = some e) :
    ∃ c, constructs[i]? = some c ∧ c.entry = e := by
  rw [← Array.getElem?_toList, entries, List.getElem?_map] at there
  exact Option.map_eq_some_iff.1 there

theorem laminar_of_precedes (ordered : constructs.Pairwise Precedes)
    (mem : c ∈ constructs) (mem' : d ∈ constructs) :
    c.entry.Disjoint d.entry ∨ c.entry.Subrange d.entry ∨ d.entry.Subrange c.entry := by
  obtain ⟨i, first⟩ := List.getElem?_of_mem mem
  obtain ⟨j, second⟩ := List.getElem?_of_mem mem'
  rcases Nat.lt_trichotomy i j with earlier | rfl | later
  · exact (precedes_of_lt ordered first second earlier).ranges.imp_right .inl
  · cases first.symm.trans second
    exact .inr (.inl ⟨Int.le_refl _, Int.le_refl _⟩)
  · rcases (precedes_of_lt ordered second first later).ranges with apart | within
    · exact .inl (Or.symm apart)
    · exact .inr (.inr within)

theorem lt_of_subrange (ordered : constructs.Pairwise Precedes) (first : constructs[i]? = some c)
    (second : constructs[j]? = some d) (code : c.start < c.stop)
    (within : c.entry.Subrange d.entry) (strict : ¬ d.entry.Subrange c.entry) : i < j := by
  rcases Nat.lt_trichotomy i j with earlier | rfl | later
  · exact earlier
  · cases first.symm.trans second
    exact absurd within strict
  · rcases (precedes_of_lt ordered second first later).ranges with apart | within'
    · exact absurd apart (not_disjoint code within)
    · exact absurd within' strict

theorem lt_iff_inside (ordered : constructs.Pairwise Precedes) (first : constructs[i]? = some c)
    (second : constructs[j]? = some d) (code : c.start < c.stop) (start : c.start = d.start)
    (stop : c.stop = d.stop) : i < j ↔ c.Inside d := by
  have covers : c.Covers c.start := ⟨Int.le_refl _, Int.ofNat_lt.2 code⟩
  have covers' : d.Covers c.start := ⟨start ▸ Int.le_refl _, stop ▸ Int.ofNat_lt.2 code⟩
  constructor
  · exact fun earlier =>
      (precedes_of_lt ordered first second earlier).inside_of_covers covers covers'
  · intro inside
    rcases Nat.lt_trichotomy i j with earlier | rfl | later
    · exact earlier
    · cases first.symm.trans second
      exact absurd inside inside.asymm
    · have inside' := (precedes_of_lt ordered second first later).inside_of_covers covers' covers
      exact absurd inside inside'.asymm

/-- The first of the narrowest entries is that of the innermost construct: one that came earlier
and covers the offset would be inside, and no wider. -/
theorem innermost_of_firstNarrowest (ordered : constructs.Pairwise Precedes)
    (found : FirstNarrowest (constructs.map (·.entry)) offset e) :
    ∃ c : Construct, c.Innermost constructs offset ∧ c.entry = e := by
  obtain ⟨covers, before, after, split, wide, -⟩ := found
  obtain ⟨earlier, rest, rfl, rfl, later⟩ := List.map_eq_append_iff.1 split
  obtain ⟨c, later, rfl, rfl, rfl⟩ := List.map_eq_cons_iff.1 later
  obtain ⟨_, behind, across⟩ := List.pairwise_append.1 ordered
  refine ⟨c, ⟨by simp, covers, fun d mem covers' => ?_⟩, rfl⟩
  rcases List.mem_append.1 mem with mem | mem
  · -- not earlier
    have narrow := wide d.entry (List.mem_map_of_mem mem) covers'
    cases across d mem c List.mem_cons_self with
    | apart short =>
      obtain ⟨_, stop⟩ := covers'
      obtain ⟨start, _⟩ := covers
      simp only [entry] at start
      omega
    | inside _ start stop =>
      simp only [SpanEntry.extent, entry] at narrow
      omega
  · rcases List.mem_cons.1 mem with rfl | mem
    · exact .inl rfl
    · have precedes := (List.pairwise_cons.1 behind).1 d mem
      exact .inr (precedes.inside_of_covers covers covers')

theorem innermost_of_precedes (entries : t.toList = constructs.map (·.entry))
    (ordered : constructs.Pairwise Precedes) (offset : Int) :
    (t.find? offset = none ∧ ∀ c ∈ constructs, ¬ c.Covers offset) ∨
      ∃ c : Construct, c.Innermost constructs offset ∧ t.find? offset = some c.span := by
  rcases t.find?_cases offset with ⟨nothing, misses⟩ | ⟨e, found, span⟩
  · refine .inl ⟨nothing, fun c mem => misses c.entry ?_⟩
    rw [entries]
    exact List.mem_map_of_mem mem
  · rw [entries] at found
    obtain ⟨c, innermost, rfl⟩ := innermost_of_firstNarrowest ordered found
    exact .inr ⟨c, innermost, span⟩

theorem FirstNarrowest.unique {entries : List SpanEntry} (h : FirstNarrowest entries offset e)
    (h' : FirstNarrowest entries offset e') : e = e' := by
  obtain ⟨covers, before, after, rfl, wide, wide'⟩ := h
  obtain ⟨covers', before', after', split, wide₁, wide₁'⟩ := h'
  rcases List.append_eq_append_iff.1 split with ⟨between, first, second⟩ | ⟨between, first, second⟩
  · cases between with
    | nil => exact (List.cons.inj second).1
    | cons b between =>
      obtain ⟨rfl, rfl⟩ := List.cons.inj second
      have narrow := wide₁ e (by simp [first]) covers
      have narrow' := wide' e' (by simp) covers'
      omega
  · cases between with
    | nil => exact (List.cons.inj second).1.symm
    | cons b between =>
      obtain ⟨rfl, rfl⟩ := List.cons.inj second
      have narrow := wide e' (by simp [first]) covers'
      have narrow' := wide₁' e (by simp) covers
      omega

theorem find?_eq_some_iff {span : Span} : t.find? offset = some span ↔
    ∃ e, FirstNarrowest t.toList offset e ∧ e.span = span := by
  constructor
  · intro found
    rcases t.find?_cases offset with ⟨nothing, -⟩ | ⟨e, first, there⟩
    · cases nothing.symm.trans found
    · cases there.symm.trans found
      exact ⟨e, first, rfl⟩
  · rintro ⟨e, first, rfl⟩
    rcases t.find?_cases offset with ⟨-, misses⟩ | ⟨e', first', there⟩
    · obtain ⟨covers, before, after, split, -⟩ := first
      exact absurd covers (misses e (by simp [split]))
    · rw [there, first'.unique first]

theorem nests_of_precedes {code : Array UInt8} (entries : t.toList = constructs.map (·.entry))
    (ordered : constructs.Pairwise Precedes)
    (whole : ∀ c ∈ constructs, c.start < c.stop ∧ c.stop ≤ code.size ∧ Boundary code c.start ∧
      Boundary code c.stop) : t.Nests code constructs where
  entries := entries
  whole e mem := by
    rw [entries] at mem
    obtain ⟨c, listed, rfl⟩ := List.mem_map.1 mem
    exact ⟨c.start, c.stop, rfl, rfl, whole c listed⟩
  laminar e mem e' mem' := by
    rw [entries] at mem mem'
    obtain ⟨c, listed, rfl⟩ := List.mem_map.1 mem
    obtain ⟨d, listed', rfl⟩ := List.mem_map.1 mem'
    exact laminar_of_precedes ordered listed listed'
  narrower_first i j e e' there there' within strict := by
    obtain ⟨c, first, rfl⟩ := getElem?_entries entries there
    obtain ⟨d, second, rfl⟩ := getElem?_entries entries there'
    exact lt_of_subrange ordered first second (whole c (List.mem_of_getElem? first)).1 within strict
  inner_first i j c d first second start stop :=
    lt_iff_inside ordered first second (whole c (List.mem_of_getElem? first)).1 start stop
  first_narrowest _ _ := find?_eq_some_iff
  innermost := innermost_of_precedes entries ordered

end SpanTable

/-- The span table of whatever compiles nests as the constructs of its tree do, so that every
lookup comes to the innermost construct. -/
theorem span_table_nests {file : Text} {tokens : List Token} {p : Program}
    (compiled : compileTokens file tokens = .ok p) :
    ∃ ds, Derives tokens ds ∧ p.spans.Nests p.chunk.code (constructsOf ds) := by
  obtain ⟨ds, derived⟩ := exists_derives compiled
  have along := derived.compiled file
  rw [compiled] at along
  obtain ⟨-, -, holds⟩ := along
  obtain ⟨marks, aligned⟩ := marks_program ds
  have entries : p.spans.toList = (constructsOf ds).map (·.entry) := holds.spans.trans marks
  refine ⟨ds, derived, SpanTable.nests_of_precedes entries (pairwise_constructsOf ds) ?_⟩
  intro c mem
  have recorded : c.entry ∈ (program ds).marks := by
    rw [marks]
    exact List.mem_map_of_mem mem
  refine ⟨?_, holds.whole aligned recorded⟩
  have code := (List.mem_filter.1 mem).2
  rwa [Construct.hasCode, decide_eq_true_eq] at code

/-- In `{ print true; }` the block and the statement in it have the same code. -/
theorem span_table_nests_block :
    ∃ tokens inner outer p ds,
      tokens = [⟨.leftBrace, utf8 "\x7b", { line := 1, start := 0, stop := 1 }⟩,
        ⟨.kwPrint, utf8 "print", { line := 1, start := 2, stop := 7 }⟩,
        ⟨.kwTrue, utf8 "true", { line := 1, start := 8, stop := 12 }⟩,
        ⟨.semicolon, utf8 ";", { line := 1, start := 12, stop := 13 }⟩,
        ⟨.rightBrace, utf8 "\x7d", { line := 1, start := 14, stop := 15 }⟩] ∧
      inner = { line := 1, start := 2, stop := 13 } ∧
      outer = { line := 1, start := 0, stop := 15 } ∧
      compileTokens [] tokens = .ok p ∧
      Derives tokens ds ∧ p.spans.Nests p.chunk.code (constructsOf ds) ∧
      p.spans.toList = [⟨0, 2, inner⟩, ⟨0, 2, outer⟩] ∧ p.spans.find? 1 = some inner := by
  obtain ⟨p, compiled⟩ : ∃ p, compileTokens [] [⟨.leftBrace, utf8 "\x7b", ⟨[], 1, 0, 1⟩⟩,
    ⟨.kwPrint, utf8 "print", ⟨[], 1, 2, 7⟩⟩, ⟨.kwTrue, utf8 "true", ⟨[], 1, 8, 12⟩⟩,
    ⟨.semicolon, utf8 ";", ⟨[], 1, 12, 13⟩⟩, ⟨.rightBrace, utf8 "\x7d", ⟨[], 1, 14, 15⟩⟩] = .ok p :=
    ⟨_, rfl⟩
  obtain ⟨ds, derived, nests⟩ := span_table_nests compiled
  refine ⟨_, _, _, p, ds, rfl, rfl, rfl, compiled, derived, nests, ?_⟩
  cases compiled
  exact ⟨rfl, rfl⟩

end StackScript
