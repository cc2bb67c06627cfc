import StackScript.Token.Lexer

/-! Gaps between tokens. What the lexer skips is a sequence of blanks and comments, told here
without the modes in which it reads them, and it skips every one that is there. -/

namespace StackScript.Lexer

def blanks : Text := [0x20, 0x09, 0x0d, 0x0a]

def lineOpening : Text := [0x2f, 0x2f]

def blockOpening : Text := [0x2f, 0x2a]

def blockClosing : Text := [0x2a, 0x2f]

/-- Blanks and comments. A comment goes to the first place where it can end, and only in the last
gap of a source may it end nowhere. -/
inductive Gap (last : Bool) : Text → Prop where
  | nil : Gap last []
  | blank {b : UInt8} {rest : Text} : b ∈ blanks → Gap last rest → Gap last (b :: rest)
  | line {body rest : Text} : Text.newline ∉ body → Gap last rest →
      Gap last (lineOpening ++ (body ++ Text.newline :: rest))
  | block {body rest : Text} : ¬ blockClosing <:+: body → Gap last rest →
      Gap last (blockOpening ++ (body ++ (blockClosing ++ rest)))
  | openLine {body : Text} : last = true → Text.newline ∉ body → Gap last (lineOpening ++ body)
  | openBlock {body : Text} : last = true → ¬ blockClosing <:+: body →
      Gap last (blockOpening ++ body)

/-- What is skipped from inside a gap on. -/
def GapMode.Skips (last : Bool) : GapMode → Text → Prop
  | .between, g => Gap last g
  | .lineComment, g => ∃ body, Text.newline ∉ body ∧
      ((∃ rest, Gap last rest ∧ g = body ++ Text.newline :: rest) ∨ last = true ∧ g = body)
  | .blockComment, g => ∃ body, ¬ blockClosing <:+: body ∧
      ((∃ rest, Gap last rest ∧ g = body ++ (blockClosing ++ rest)) ∨ last = true ∧ g = body)

variable {last : Bool} {b : UInt8} {body g rest t : Text}

theorem mem_blanks (h : isBlank b = true) : b ∈ blanks := by
  simpa [isBlank, blanks, or_assoc] using h

theorem not_closing_nil : ¬ blockClosing <:+: [] := by
  intro infixed
  cases List.infix_nil.1 infixed

namespace GapMode.Skips

theorem openLine (h : lineComment.Skips last g) : Gap last (lineOpening ++ g) := by
  obtain ⟨body, free, ⟨rest, gap, rfl⟩ | ⟨final, rfl⟩⟩ := h
  · exact .line free gap
  · exact .openLine final free

theorem openBlock (h : blockComment.Skips last g) : Gap last (blockOpening ++ g) := by
  obtain ⟨body, free, ⟨rest, gap, rfl⟩ | ⟨final, rfl⟩⟩ := h
  · exact .block free gap
  · exact .openBlock final free

theorem consLine (h : lineComment.Skips last g) (other : b ≠ Text.newline) :
    lineComment.Skips last (b :: g) := by
  obtain ⟨body, free, ends⟩ := h
  refine ⟨b :: body, by simp [free, other.symm], ?_⟩
  rcases ends with ⟨rest, gap, rfl⟩ | ⟨final, rfl⟩
  · exact .inl ⟨rest, gap, rfl⟩
  · exact .inr ⟨final, rfl⟩

theorem consBlock (h : blockComment.Skips last g) (apart : ∀ t, b = 0x2a → g ≠ 0x2f :: t) :
    blockComment.Skips last (b :: g) := by
  obtain ⟨body, free, ends⟩ := h
  refine ⟨b :: body, ?_, ?_⟩
  · intro infixed
    rcases List.infix_cons_iff.1 infixed with ⟨after, closes⟩ | infixed
    · obtain ⟨star, tail⟩ := List.cons.inj closes
      obtain rfl : body = 0x2f :: after := tail.symm
      rcases ends with ⟨rest, _, rfl⟩ | ⟨_, rfl⟩
      · exact apart _ star.symm rfl
      · exact apart _ star.symm rfl
    · exact free infixed
  · rcases ends with ⟨rest, gap, rfl⟩ | ⟨final, rfl⟩
    · exact .inl ⟨rest, gap, rfl⟩
    · exact .inr ⟨final, rfl⟩

end GapMode.Skips

/-- In every mode the count covers what that mode skips, at the front of the text. -/
theorem gapFrom_skips (mode : GapMode) (t : Text) (n : Nat) :
    ∃ g rest, t = g ++ rest ∧ gapFrom mode t n = n + g.length ∧ mode.Skips rest.isEmpty g := by
  induction mode, t, n using gapFrom.induct with
  | case1 mode n =>
    refine ⟨[], [], rfl, by simp [gapFrom], ?_⟩
    cases mode with
    | between => exact .nil
    | lineComment => exact ⟨[], by simp, .inr ⟨rfl, rfl⟩⟩
    | blockComment => exact ⟨[], not_closing_nil, .inr ⟨rfl, rfl⟩⟩
  | case2 rest n ih =>
    obtain ⟨g, left, rfl, count, skips⟩ := ih
    refine ⟨lineOpening ++ g, left, rfl, ?_, skips.openLine⟩
    rw [gapFrom, count, List.length_append]
    exact Nat.add_assoc n 2 g.length
  | case3 rest n ih =>
    obtain ⟨g, left, rfl, count, skips⟩ := ih
    refine ⟨blockOpening ++ g, left, rfl, ?_, skips.openBlock⟩
    rw [gapFrom, count, List.length_append]
    exact Nat.add_assoc n 2 g.length
  | case4 b rest n notLine notBlock blank ih =>
    obtain ⟨g, left, rfl, count, skips⟩ := ih
    refine ⟨b :: g, left, rfl, ?_, .blank (mem_blanks blank) skips⟩
    rw [gapFrom, if_pos blank, count, List.length_cons]
    · omega
    · exact notLine
    · exact notBlock
  | case5 b rest n notLine notBlock other =>
    refine ⟨[], b :: rest, rfl, ?_, .nil⟩
    rw [gapFrom, if_neg other]
    · rfl
    · exact notLine
    · exact notBlock
  | case6 b rest n ih =>
    obtain ⟨g, left, rfl, count, skips⟩ := ih
    refine ⟨b :: g, left, rfl, ?_, ?_⟩
    · rw [gapFrom, count, List.length_cons]
      omega
    · by_cases ends : b = Text.newline
      · rw [if_pos ends] at skips
        exact ⟨[], by simp, .inl ⟨g, skips, by rw [ends]; rfl⟩⟩
      · rw [if_neg ends] at skips
        exact skips.consLine ends
  | case7 rest n ih =>
    obtain ⟨g, left, rfl, count, skips⟩ := ih
    refine ⟨blockClosing ++ g, left, rfl, ?_, [], not_closing_nil, .inl ⟨g, skips, rfl⟩⟩
    rw [gapFrom, count, List.length_append]
    exact Nat.add_assoc n 2 g.length
  | case8 b rest n inside ih =>
    obtain ⟨g, left, rfl, count, skips⟩ := ih
    refine ⟨b :: g, left, rfl, ?_, skips.consBlock ?_⟩
    · rw [gapFrom, count, List.length_cons]
      · omega
      · exact inside
    · rintro t star rfl
      exact inside _ star rfl

theorem exists_gap (t : Text) :
    ∃ g rest, t = g ++ rest ∧ gapLength t = g.length ∧ Gap rest.isEmpty g := by
  obtain ⟨g, rest, split, count, skips⟩ := gapFrom_skips .between t 0
  exact ⟨g, rest, split, count.trans (Nat.zero_add _), skips⟩

theorem gapFrom_blank (blank : b ∈ blanks) (rest : Text) (n : Nat) :
    gapFrom .between (b :: rest) n = gapFrom .between rest (n + 1) := by
  simp only [blanks, List.mem_cons, List.not_mem_nil, or_false] at blank
  rcases blank with rfl | rfl | rfl | rfl
  all_goals simp [gapFrom, isBlank]

theorem gapFrom_line (free : Text.newline ∉ body) (rest : Text) (n : Nat) :
    gapFrom .lineComment (body ++ Text.newline :: rest) n =
      gapFrom .between rest (n + body.length + 1) := by
  induction body generalizing n with
  | nil => simp [gapFrom]
  | cons b body ih =>
    obtain ⟨other, free⟩ := not_or.1 (free ∘ List.mem_cons.2)
    rw [List.cons_append, gapFrom, if_neg (Ne.symm other), ih free, List.length_cons]
    congr 1
    omega

theorem gapFrom_openLine (free : Text.newline ∉ body) (n : Nat) :
    gapFrom .lineComment body n = n + body.length := by
  induction body generalizing n with
  | nil => rfl
  | cons b body ih =>
    obtain ⟨other, free⟩ := not_or.1 (free ∘ List.mem_cons.2)
    rw [gapFrom, if_neg (Ne.symm other), ih free, List.length_cons]
    omega

theorem not_closing_cons (free : ¬ blockClosing <:+: b :: body) :
    (∀ rest, b = 0x2a → body ≠ 0x2f :: rest) ∧ ¬ blockClosing <:+: body := by
  refine ⟨?_, fun inside => free (List.infix_cons inside)⟩
  rintro rest rfl rfl
  exact free ⟨[], rest, rfl⟩

theorem gapFrom_block (free : ¬ blockClosing <:+: body) (rest : Text) (n : Nat) :
    gapFrom .blockComment (body ++ (blockClosing ++ rest)) n =
      gapFrom .between rest (n + body.length + 2) := by
  induction body generalizing n with
  | nil => rfl
  | cons b body ih =>
    obtain ⟨apart, free⟩ := not_closing_cons free
    have inside (after : Text) (star : b = 0x2a) :
        body ++ (blockClosing ++ rest) ≠ 0x2f :: after := by
      cases body with
      | nil => simp [blockClosing]
      | cons c body =>
        intro slash
        exact apart body star (congrArg (· :: body) (List.cons.inj slash).1)
    rw [List.cons_append, gapFrom, ih free, List.length_cons]
    · congr 1
      omega
    · exact inside

theorem gapFrom_openBlock (free : ¬ blockClosing <:+: body) (n : Nat) :
    gapFrom .blockComment body n = n + body.length := by
  induction body generalizing n with
  | nil => rfl
  | cons b body ih =>
    obtain ⟨apart, free⟩ := not_closing_cons free
    rw [gapFrom, ih free, List.length_cons]
    · omega
    · exact apart

structure Clear (t : Text) : Prop where
  blank : ∀ b ∈ blanks, ¬ [b] <+: t
  line : ¬ lineOpening <+: t
  block : ¬ blockOpening <+: t

theorem clear_of_gapFrom {n : Nat} (h : gapFrom .between t n = n) : Clear t := by
  have counts (mode : GapMode) (t : Text) (m : Nat) : m ≤ gapFrom mode t m := by
    obtain ⟨g, _, _, count, _⟩ := gapFrom_skips mode t m
    omega
  refine ⟨?_, ?_, ?_⟩
  · rintro b blank ⟨rest, rfl⟩
    have := counts .between rest (n + 1)
    rw [List.singleton_append, gapFrom_blank blank] at h
    omega
  · rintro ⟨rest, rfl⟩
    have := counts .lineComment rest (n + 2)
    simp only [lineOpening, List.cons_append, List.nil_append, gapFrom] at h
    omega
  · rintro ⟨rest, rfl⟩
    have := counts .blockComment rest (n + 2)
    simp only [blockOpening, List.cons_append, List.nil_append, gapFrom] at h
    omega

theorem Clear.gapFrom_eq (clear : Clear t) (n : Nat) : gapFrom .between t n = n := by
  cases t with
  | nil => rfl
  | cons b rest =>
    rw [gapFrom]
    · refine if_neg fun blank => clear.blank b (mem_blanks blank) ⟨rest, rfl⟩
    · rintro after rfl rfl
      exact clear.line ⟨after, rfl⟩
    · rintro after rfl rfl
      exact clear.block ⟨after, rfl⟩

theorem Gap.gapFrom_append (gap : Gap last g) (final : last = true → rest = []) (n : Nat) :
    gapFrom .between (g ++ rest) n = gapFrom .between rest (n + g.length) := by
  induction gap generalizing n with
  | nil => rfl
  | @blank b g blank gap ih =>
    rw [List.cons_append, gapFrom_blank blank, ih, List.length_cons]
    congr 1
    omega
  | line free gap ih =>
    simp only [lineOpening, List.cons_append, List.nil_append, List.append_assoc, gapFrom,
      gapFrom_line free, ih, List.length_cons, List.length_append]
    congr 1
    omega
  | block free gap ih =>
    simp only [blockOpening, List.cons_append, List.nil_append, List.append_assoc, gapFrom,
      gapFrom_block free, ih, List.length_cons, List.length_append]
    congr 1
    simp only [blockClosing, List.length_cons, List.length_nil]
    omega
  | openLine isLast free =>
    rw [final isLast, List.append_nil]
    simp only [lineOpening, List.cons_append, List.nil_append, gapFrom, gapFrom_openLine free,
      List.length_cons]
    omega
  | openBlock isLast free =>
    rw [final isLast, List.append_nil]
    simp only [blockOpening, List.cons_append, List.nil_append, gapFrom, gapFrom_openBlock free,
      List.length_cons]
    omega

/-- What remains of a text behind its blanks and comments. -/
def Remains (t rest : Text) : Prop := ∃ g, t = g ++ rest ∧ Gap rest.isEmpty g ∧ Clear rest

theorem gapLength_eq {g rest : Text} (gap : Gap rest.isEmpty g) (clear : Clear rest) :
    gapLength (g ++ rest) = g.length := by
  rw [gapLength, gap.gapFrom_append List.isEmpty_iff.1, clear.gapFrom_eq, Nat.zero_add]

theorem remains_iff : Remains t rest ↔ t.drop (gapLength t) = rest := by
  constructor
  · rintro ⟨g, rfl, gap, clear⟩
    rw [gapLength_eq gap clear, List.drop_left]
  · rintro rfl
    obtain ⟨g, rest, rfl, count, gap⟩ := exists_gap t
    rw [count, List.drop_left]
    rw [gapLength, gap.gapFrom_append List.isEmpty_iff.1, Nat.zero_add] at count
    exact ⟨g, rfl, gap, clear_of_gapFrom count⟩

end StackScript.Lexer
