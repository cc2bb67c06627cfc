import StackScript.Proofs.Drafting.Statement
import StackScript.Proofs.Parsing.Program

/-! The language of the compiler. A token list is compiled exactly when it derives a tree
that obeys the static rules, and the program is then the code of that tree. -/

namespace StackScript

open Build Fragment Grammar

/-- The program consists of a fragment and nothing else. -/
structure Program.Holds (p : Program) (f : Fragment) : Prop where
  code : Asm.Assembles p.chunk.constants.toList f.code p.chunk.code.toList
  pool : p.chunk.constants.toList = f.pool
  spans : p.spans.toList = f.marks

namespace Draft

theorem start_pool (file : Text) (tokens : List Token) : (start file tokens).pool = [] := by
  rw [pool, (start_blank file tokens).1]

theorem start_ready (file : Text) (tokens : List Token) : (start file tokens).Ready := by
  obtain ⟨chunk, _, _, names⟩ := start_blank file tokens
  refine ⟨?_, ?_, ?_⟩
  · simp [start_pool]
  · simp [names]
  · simp [start_pool]

theorem program_holds {file : Text} {tokens : List Token} {d : Draft} {f : Fragment}
    (drafted : Drafted (start file tokens) d f) :
    (d.program file).Holds (f ++ of [.plain .finish]) := by
  obtain ⟨chunk, spans, _⟩ := start_blank file tokens
  have read := (Drafted.advance drafted.ready).1
  have ended := Drafted.emit read.ready (show Opcode.finish.operandWidth = 0 from rfl)
  have all := (drafted.trans read).trans ended
  rw [append_of_nil] at all
  refine ⟨?_, ?_, ?_⟩
  · obtain ⟨bytes, code, assembles⟩ := all.code
    rw [chunk] at code
    have same : (d.program file).chunk.code.toList = bytes := code
    rw [same]
    exact assembles
  · have pool := all.pool
    rwa [start_pool] at pool
  · have marks := all.spans
    rw [chunk, spans] at marks
    have same : (d.program file).spans = (d.advance.emit .finish).spans := rfl
    simpa [same, funext SpanEntry.shift_zero] using marks

end Draft

theorem rules_iff (ds : List Decl) (file : Text) (tokens : List Token) :
    Rules ds ↔ Lawful (exprsAll ds) (blocksAll ds) (peakAll true ds) ∧
      (fragmentAll true [] ds).Fits ∧ (Draft.start file tokens).Holds (fragmentAll true [] ds).uses := by
  have fits : (∀ a ∈ (program ds).code, a.distance ≤ Draft.maxJump) ↔
      (fragmentAll true [] ds).Fits := by
    simp [program, Fits, or_imp, forall_and, Asm.distance, Draft.maxJump, Nat.lt_succ_iff]
  rw [← fits, Draft.Holds, Draft.start_pool, ← pool_program]
  constructor
  · rintro ⟨literals, blocks, locals, constants, jumps⟩
    exact ⟨⟨literals, blocks, locals⟩, jumps, constants⟩
  · rintro ⟨⟨literals, blocks, locals⟩, jumps, constants⟩
    exact ⟨literals, blocks, locals, constants, jumps⟩

theorem Grammar.Derives.compiled {tokens : List Token} {ds : List Decl} (h : Derives tokens ds)
    (file : Text) :
    match compileTokens file tokens with
    | .ok p => Rules ds ∧ p.file = file ∧ p.Holds (program ds)
    | .error _ => ¬ Rules ds := by
  have along := h.compiles_along file
  have built := emits_top [] ds (Draft.start_ready file tokens)
    (Draft.start_blank file tokens).2.2.1 List.nil_prefix
  rw [← rules_iff] at built
  cases run : (buildAll ds).run (Draft.start file tokens) with
  | ok a d =>
    rw [run] at along built
    obtain ⟨rules, drafted, _⟩ := built
    rw [along]
    exact ⟨rules, rfl, Draft.program_holds drafted⟩
  | error e d =>
    rw [run] at along built
    obtain ⟨faults, error⟩ := along
    rw [error]
    exact built

/-- Exactly the lists that derive a tree within the rules are compiled. -/
theorem compiles_iff_derives_within_rules (file : Text) (tokens : List Token) :
    (∃ p, compileTokens file tokens = .ok p) ↔ ∃ ds, Derives tokens ds ∧ Rules ds := by
  constructor
  · rintro ⟨p, compiled⟩
    obtain ⟨ds, derived⟩ := exists_derives compiled
    have along := derived.compiled file
    rw [compiled] at along
    exact ⟨ds, derived, along.1⟩
  · rintro ⟨ds, derived, rules⟩
    have along := derived.compiled file
    cases compiled : compileTokens file tokens with
    | ok p => exact ⟨p, rfl⟩
    | error faults =>
      rw [compiled] at along
      exact absurd rules along

/-- Without the longest conditions the grammar is too wide: in `if x - y ;` it lets the
condition end before the minus, and compilation goes on with a subtraction. -/
theorem compiles_not_iff_any_tree :
    ¬ ∀ (file : Text) (tokens : List Token), (∃ p, compileTokens file tokens = .ok p) ↔
      ∃ ds, Grammar.Program (tokens.takeWhile (·.kind ≠ .eof)) ds ∧ Rules ds := by
  intro same
  let word : Token := ⟨.kwIf, utf8 "if", {}⟩
  let x : Token := ⟨.identifier, utf8 "x", {}⟩
  let minus : Token := ⟨.minus, utf8 "-", {}⟩
  let y : Token := ⟨.identifier, utf8 "y", {}⟩
  let semicolon : Token := ⟨.semicolon, utf8 ";", {}⟩
  let body : Stmt := .expression (.unary minus (.name y)) semicolon
  let tree : List Decl := [.statement (.branch word (.name x) body .done)]
  have widen {ts : List Token} {e : Expr} (h : Expression .unary ts e) :
      Expression .assignment ts e := h.loosen (by decide) (by decide)
  have derived : Grammar.Program [word, x, minus, y, semicolon] tree := by
    have condition := widen (.name (show x.kind = .identifier from rfl))
    have operand := Expression.name (show y.kind = .identifier from rfl)
    have negated := widen (.unary (.inl (show minus.kind = .minus from rfl)) operand)
    exact .cons (.statement (.branch rfl condition (.expression negated rfl) .done (by simp))) .nil
  have rules : Rules tree := by
    refine ⟨?_, ?_, by decide, by decide, by decide⟩
    · simp [tree, body, exprsAll, Decl.exprs, Stmt.exprs, Rest.exprs, Expr.Readable, Expr.literals]
    · simp [tree, body, blocksAll, Decl.blocks, Stmt.blocks, Rest.blocks]
  obtain ⟨p, compiled⟩ := (same [] [word, x, minus, y, semicolon]).2 ⟨tree, derived, rules⟩
  have refused : (compileTokens [] [word, x, minus, y, semicolon]).toOption = none := by
    decide +kernel
  rw [compiled] at refused
  cases refused

end StackScript
