import StackScript.Proofs.Assembly.Rules
import StackScript.Proofs.Syntax.Grammar

/-! What the grammar says about the tokens in a tree. Trees with other operators can be
written down, but no token list derives them. -/

namespace StackScript

/-- The operators and literals of an expression are those of the grammar. -/
def Expr.Formed : Expr → Prop
  | .literal t => t.kind ∈ Grammar.literals
  | .name _ => True
  | .assign _ _ e | .group _ e _ => e.Formed
  | .compound _ op e => op.kind ∈ Grammar.compounds ∧ e.Formed
  | .unary op e => (op.kind = .minus ∨ op.kind = .bang) ∧ e.Formed
  | .binary a op b => (∃ l, op.kind ∈ Grammar.operators l) ∧ a.Formed ∧ b.Formed
  | .conditional c _ a _ b => c.Formed ∧ a.Formed ∧ b.Formed
  | .and a _ b | .or a _ b => a.Formed ∧ b.Formed

namespace Grammar

theorem Expression.formed {l : Level} {ts : List Token} {e : Expr} (h : Expression l ts e) :
    e.Formed := by
  induction h with
  | assign _ _ _ ih => exact ih
  | compound _ op _ ih => exact ⟨op, ih⟩
  | tighter _ _ ih => exact ih
  | conditional _ _ _ _ _ ihc iha ihb => exact ⟨ihc, iha, ihb⟩
  | or _ _ _ iha ihb => exact ⟨iha, ihb⟩
  | and _ _ _ iha ihb => exact ⟨iha, ihb⟩
  | binary _ op _ iha ihb => exact ⟨⟨_, op⟩, iha, ihb⟩
  | unary op _ ih => exact ⟨op, ih⟩
  | literal kind => exact kind
  | name _ => trivial
  | group _ _ _ ih => exact ih

mutual

theorem Statement.formed {ts : List Token} {s : Stmt} :
    Statement ts s → ∀ e ∈ s.exprs, e.Formed
  | .print _ e _ => by simpa [Stmt.exprs] using e.formed
  | .expression e _ => by simpa [Stmt.exprs] using e.formed
  | .branch _ c s r _ => by
    simp only [Stmt.exprs, List.forall_mem_cons, List.forall_mem_append]
    exact ⟨c.formed, s.formed, r.formed⟩
  | .loop _ c s => by
    simp only [Stmt.exprs, List.forall_mem_cons]
    exact ⟨c.formed, s.formed⟩
  | .block _ ds _ => ds.formed

theorem Continuation.formed {ts : List Token} {r : Rest} :
    Continuation ts r → ∀ e ∈ r.exprs, e.Formed
  | .done => by simp [Rest.exprs]
  | .elif _ c s r _ => by
    simp only [Rest.exprs, List.forall_mem_cons, List.forall_mem_append]
    exact ⟨c.formed, s.formed, r.formed⟩
  | .otherwise _ s => s.formed

theorem Declaration.formed {ts : List Token} {d : Decl} :
    Declaration ts d → ∀ e ∈ d.exprs, e.Formed
  | .bind _ _ _ => by simp [Decl.exprs]
  | .bindTo _ _ _ e _ => by simpa [Decl.exprs] using e.formed
  | .statement s => s.formed

theorem Program.formed {ts : List Token} {ds : List Decl} :
    Program ts ds → ∀ e ∈ exprsAll ds, e.Formed
  | .nil => by simp [exprsAll]
  | .cons d ds => by
    simp only [exprsAll, List.forall_mem_append]
    exact ⟨d.formed, ds.formed⟩

end

end Grammar

end StackScript
