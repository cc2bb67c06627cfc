import StackScript.Proofs.Semantics.Instructions
import StackScript.Proofs.Syntax.Formed

/-! The code of an expression simulates its evaluation, wherever it stands and whatever lies
below on the stack, and leaves the value on top. -/

namespace StackScript

open Asm Config Fragment

theorem equality_true : Machine.equality true = TokenKind.binary .equal := by
  funext a b
  simp only [Machine.equality, TokenKind.binary]
  cases a.equatable b <;> simp [Except.map, bind, Except.bind, pure, Except.pure]

theorem equality_false : Machine.equality false = TokenKind.binary .bangEqual := by
  funext a b
  simp only [Machine.equality, TokenKind.binary]
  cases a.equatable b <;> simp [Except.map, bind, Except.bind, pure, Except.pure]

theorem order_eq (less : Value → Value → Bool) :
    Machine.order less = fun a b => do a.comparable b; return .bool (less a b) := by
  funext a b
  simp only [Machine.order]
  cases a.comparable b <;> rfl

theorem perform_binary {k : TokenKind} (h : ∃ l, k ∈ Grammar.operators l) :
    ∃ op, Opcode.ofBinary? k = some op ∧ op.needs = 2 ∧ op.operandWidth = 0 ∧
      ∀ m, Machine.perform {} ⟨op, 0⟩ m = m.binary k.binary := by
  obtain ⟨l, mem⟩ := h
  cases l <;> simp only [Grammar.operators, List.mem_cons, List.not_mem_nil, or_false] at mem
  · rcases mem with rfl | rfl
    · exact ⟨_, rfl, rfl, rfl, fun m => congrArg m.binary equality_true⟩
    · exact ⟨_, rfl, rfl, rfl, fun m => congrArg m.binary equality_false⟩
  · rcases mem with rfl | rfl | rfl | rfl
    all_goals exact ⟨_, rfl, rfl, rfl, fun m => congrArg m.binary (order_eq _)⟩
  · rcases mem with rfl | rfl
    all_goals exact ⟨_, rfl, rfl, rfl, fun m => rfl⟩
  · rcases mem with rfl | rfl
    all_goals exact ⟨_, rfl, rfl, rfl, fun m => rfl⟩

theorem perform_compound {k : TokenKind} (h : k ∈ Grammar.compounds) :
    ∃ op, Opcode.ofCompound? k = some op ∧ op.needs = 2 ∧ op.operandWidth = 0 ∧
      ∀ m, Machine.perform {} ⟨op, 0⟩ m = m.binary k.compound := by
  simp only [Grammar.compounds, List.mem_cons, List.not_mem_nil, or_false] at h
  rcases h with rfl | rfl | rfl | rfl
  all_goals exact ⟨_, rfl, rfl, rfl, fun m => rfl⟩

theorem perform_unary {k : TokenKind} (h : k = .minus ∨ k = .bang) (m : Machine) :
    Machine.perform {} ⟨Opcode.ofUnary k, 0⟩ m = m.unary k.unary := by
  rcases h with rfl | rfl
  all_goals rfl

namespace Simulates

variable {code : List Asm} {bound o : Nat} {names : List Text} {temps : List Value}

theorem literal {t : Token} (kind : t.kind ∈ Grammar.literals)
    (has : Has code o (Fragment.literal t).code) :
    Simulates code bound ⟨o, names, temps⟩ (pure (t.value?.getD .none)) fun v =>
      ⟨o + (Fragment.literal t).size, names, v :: temps⟩ := by
  simp only [Grammar.literals, List.mem_cons, List.not_mem_nil, or_false] at kind
  rcases kind with kind | kind | kind | kind | kind | kind
  all_goals
    simp only [Fragment.literal, kind] at has ⊢
  · exact push has.head rfl fun _ => rfl
  · exact push has.head rfl fun _ => rfl
  · exact push has.head rfl fun _ => rfl
  all_goals
    simp only [Token.value?, kind]
    exact push has.head rfl fun _ => rfl

theorem replace {α : Type} {x : Eval α} {t : α → Spot} {v : Value} {part : List Asm}
    (has : Has code o (.plain .pop :: part))
    (inner : Has code (o + 1) part → Simulates code bound ⟨o + 1, names, temps⟩ x t) :
    Simulates code bound ⟨o, names, v :: temps⟩ x t :=
  (pop has.head (inner has.tail)).weaken (Nat.le_succ _)

variable {x : Eval Value} {b : Fragment} {v : Value}

theorem conjunction (has : Has code o (Fragment.conjunction b).code)
    (inner : ∀ o, Has code o b.code → Simulates code bound ⟨o, names, temps⟩ x fun v =>
      ⟨o + b.size, names, v :: temps⟩) :
    Simulates code bound ⟨o, names, v :: temps⟩ (if v.truthy then x else pure v) fun v =>
      ⟨o + (Fragment.conjunction b).size, names, v :: temps⟩ := by
  have size : o + (Fragment.conjunction b).size = o + 3 + 1 + b.size := by
    simp [Fragment.conjunction, skipped]
    omega
  rw [size]
  refine (test has.head (replace has.tail (inner _)) (of_pure ?_)).weaken (Nat.le_succ _)
  simp only [size_append, size_of, Asm.total_cons, Asm.size_pop, Asm.total_nil, Spot.mk.injEq, and_true]
  omega

theorem disjunction (has : Has code o (Fragment.disjunction b).code)
    (inner : ∀ o, Has code o b.code → Simulates code bound ⟨o, names, temps⟩ x fun v =>
      ⟨o + b.size, names, v :: temps⟩) :
    Simulates code bound ⟨o, names, v :: temps⟩ (if v.truthy then pure v else x) fun v =>
      ⟨o + (Fragment.disjunction b).size, names, v :: temps⟩ := by
  have size : o + (Fragment.disjunction b).size = o + 3 + 3 + 1 + b.size := by
    simp [Fragment.disjunction, skipped]
    omega
  rw [size]
  have kept : Simulates code bound ⟨o + 3, names, v :: temps⟩ (pure v) fun v =>
      ⟨o + 3 + 3 + 1 + b.size, names, v :: temps⟩ := by
    refine (jump has.tail.head (of_pure ?_)).weaken (Nat.le_succ _)
    simp only [size_append, size_of, Asm.total_cons, Asm.size_pop, Asm.size_jumpFalse,
      Asm.total_nil, Spot.mk.injEq, and_true]
    omega
  exact (test has.head kept (replace has.tail.tail (inner _))).weaken (Nat.le_succ _)

end Simulates

theorem Expr.simulates {code : List Asm} {bound o : Nat} {names : List Text} {temps : List Value}
    (e : Expr) (formed : e.Formed) (has : Has code o (e.fragment names).code) :
    Simulates code bound ⟨o, names, temps⟩ e.eval fun v =>
      ⟨o + (e.fragment names).size, names, v :: temps⟩ := by
  induction e generalizing o temps with
  | literal t => exact .literal formed has
  | name t =>
    simp only [Expr.fragment, Fragment.get, blaming, code_append, code_needing, code_marked, code_of,
      List.nil_append] at has
    have size : o + ((Expr.name t).fragment names).size =
        o + (Asm.get (locate t.lexeme names)).size := by
      simp [Expr.fragment, Fragment.get, blaming, Fragment.size]
    rw [size]
    exact .get t.lexeme has.head
  | assign t op e ih =>
    simp only [Expr.fragment, blaming, code_append, code_needing, code_marked, code_of,
      List.nil_append] at has
    have size : o + ((Expr.assign t op e).fragment names).size =
        o + total (e.fragment names).code + (Asm.set (locate t.lexeme names)).size := by
      simp [Expr.fragment, blaming, Fragment.size, Nat.add_assoc]
    rw [size]
    exact (ih formed has.left).bind fun v =>
      (Simulates.set t.lexeme v has.right.head).bind fun _ => .of_pure rfl
  | compound t op e ih =>
    obtain ⟨operation, operator, needs, width, performs⟩ := perform_compound formed.1
    simp only [Expr.fragment, Fragment.get, blaming, Fragment.operation, operator, code_append,
      code_needing, code_marked, code_of, List.nil_append, List.cons_append] at has
    have size : o + ((Expr.compound t op e).fragment names).size =
        o + (Asm.get (locate t.lexeme names)).size + total (e.fragment names).code +
          (Asm.plain operation).size + (Asm.set (locate t.lexeme names)).size := by
      simp [Expr.fragment, Fragment.get, blaming, Fragment.operation, operator, Fragment.size,
        Nat.add_assoc]
    rw [size]
    exact (Simulates.get t.lexeme has.head).bind fun a => (ih formed.2 has.tail.left).bind fun b =>
      (Simulates.binary has.tail.right.head needs performs).bind fun v =>
        (Simulates.set t.lexeme v has.tail.right.tail.head).bind fun _ => .of_pure rfl
  | group opening e closing ih => exact ih formed has
  | unary op e ih =>
    simp only [Expr.fragment, blaming, code_append, code_marked, code_of] at has
    have needs : (Opcode.ofUnary op.kind).needs = 1 := by
      unfold Opcode.ofUnary
      split <;> rfl
    have size : o + ((Expr.unary op e).fragment names).size =
        o + total (e.fragment names).code + (Asm.plain (Opcode.ofUnary op.kind)).size := by
      simp [Expr.fragment, blaming, Fragment.size, Nat.add_assoc]
    rw [size]
    exact (ih formed.2 has.left).bind fun v =>
      Simulates.unary has.right.head needs (perform_unary formed.1)
  | binary a op b iha ihb =>
    obtain ⟨operation, operator, needs, width, performs⟩ := perform_binary formed.1
    simp only [Expr.fragment, blaming, Fragment.operation, operator, code_append, code_marked,
      code_of] at has
    have size : o + ((Expr.binary a op b).fragment names).size =
        o + total (a.fragment names).code + total (b.fragment names).code +
          (Asm.plain operation).size := by
      simp [Expr.fragment, blaming, Fragment.operation, operator, Fragment.size, Nat.add_assoc]
    rw [size]
    exact (iha formed.2.1 has.left).bind fun v => (ihb formed.2.2 has.right.left).bind fun u =>
      Simulates.binary has.right.right.head needs performs
  | conditional c mark a colon b ihc iha ihb =>
    simp only [Expr.fragment, blaming, code_append, code_marked, code_of] at has
    have size : o + ((Expr.conditional c mark a colon b).fragment names).size =
        o + total (c.fragment names).code + total (a.fragment names).code +
          total (b.fragment names).code + 1 := by
      simp [Expr.fragment, blaming, Fragment.size, Nat.add_assoc, Asm.size, Asm.op, Opcode.operandWidth]
    rw [size]
    exact (ihc formed.1 has.left).bind fun condition =>
      (iha formed.2.1 has.right.left).bind fun yes =>
        (ihb formed.2.2 has.right.right.left).bind fun no =>
          Simulates.select has.right.right.right.head
  | and a op b iha ihb =>
    have size : o + ((Expr.and a op b).fragment names).size =
        o + total (a.fragment names).code + (Fragment.conjunction (b.fragment names)).size := by
      simp [Expr.fragment, Fragment.size, Nat.add_assoc]
    rw [size]
    exact (iha formed.1 has.left).bind fun v =>
      .conjunction has.right fun o has => ihb formed.2 has
  | or a op b iha ihb =>
    have size : o + ((Expr.or a op b).fragment names).size =
        o + total (a.fragment names).code + (Fragment.disjunction (b.fragment names)).size := by
      simp [Expr.fragment, Fragment.size, Nat.add_assoc]
    rw [size]
    exact (iha formed.1 has.left).bind fun v =>
      .disjunction has.right fun o has => ihb formed.2 has

end StackScript
