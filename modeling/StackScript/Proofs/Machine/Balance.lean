import StackScript.Proofs.Machine.Height
import StackScript.Proofs.Syntax.Formed

/-! The code of a tree is balanced: an expression adds one value to the stack, a statement
leaves it as high as it was, and a declaration of a block adds its variable. -/

namespace StackScript

open Fragment

theorem locate_lt {x : Text} {locals : List Text} {n : Nat} (h : locate x locals = .slot n) :
    n < locals.length := by
  induction locals with
  | nil => cases h
  | cons y locals ih =>
    rw [locate] at h
    split at h
    · cases h
      exact Nat.lt_succ_self _
    · exact Nat.lt_succ_of_lt (ih h)

theorem Token.value_ne_name (t : Token) : (t.value?.getD .none).kind ≠ .identifier := by
  unfold Token.value?
  split
  · cases Literal.unescape t.lexeme <;> simp [Except.toOption, Value.kind]
  · cases Number.readInt64 t.lexeme <;> simp [Value.kind]
  · cases Number.readFloat t.lexeme <;> simp [Value.kind]
  all_goals simp [Value.kind]

def Opcode.Binary (op : Opcode) : Prop := op.needs = 2 ∧ op.leaves = 1 ∧ op.operandWidth = 0

theorem Opcode.ofBinary?_of_mem {k : TokenKind} (h : ∃ l, k ∈ Grammar.operators l) :
    ∃ op, Opcode.ofBinary? k = some op ∧ op.Binary := by
  obtain ⟨l, mem⟩ := h
  cases l <;> simp only [Grammar.operators, List.mem_cons, List.not_mem_nil, or_false] at mem
  all_goals rcases mem with rfl | rfl | rfl | rfl <;> exact ⟨_, rfl, rfl, rfl, rfl⟩

theorem Opcode.ofCompound?_of_mem {k : TokenKind} (h : k ∈ Grammar.compounds) :
    ∃ op, Opcode.ofCompound? k = some op ∧ op.Binary := by
  simp only [Grammar.compounds, List.mem_cons, List.not_mem_nil, or_false] at h
  rcases h with rfl | rfl | rfl | rfl <;> exact ⟨_, rfl, rfl, rfl, rfl⟩

namespace Balanced

variable {h : Nat} {locals : List Text}

theorem plain {op : Opcode} (needs : op.needs ≤ h) (width : op.operandWidth = 0)
    (goes : op ≠ .finish) : Balanced [.plain op] h (h - op.needs + op.leaves) :=
  single needs ⟨width, goes⟩ (by simp [Asm.successors])

theorem get (x : Text) (enough : locals.length ≤ h) : Balanced [.get (locate x locals)] h (h + 1) := by
  cases place : locate x locals with
  | slot n =>
    have small := Nat.lt_of_lt_of_le (locate_lt place) enough
    exact single (Nat.zero_le _) small (by simp [Asm.successors])
  | global name => exact single (Nat.zero_le _) trivial (by simp [Asm.successors])

theorem set (x : Text) (enough : locals.length ≤ h) :
    Balanced [.set (locate x locals)] (h + 1) (h + 1) := by
  cases place : locate x locals with
  | slot n =>
    have small := Nat.lt_of_lt_of_le (locate_lt place) enough
    exact @single (.set (.slot n)) _ (Nat.le_add_left 1 h) (Nat.lt_succ_of_lt small)
      (by simp [Asm.successors])
  | global name =>
    exact @single (.set (.global name)) _ (Nat.le_add_left 1 h) trivial (by simp [Asm.successors])

theorem define (x : Text) : Balanced [.define x] (h + 1) h :=
  @single (.define x) _ (Nat.le_add_left 1 h) trivial (by simp [Asm.successors])

theorem pop : Balanced [.plain .pop] (h + 1) h :=
  @plain _ .pop (Nat.le_add_left 1 h) rfl (by decide)

theorem pops (n : Nat) : Balanced (pops n).code (n + h) h := by
  induction n with
  | zero =>
    rw [Nat.zero_add]
    exact nil h
  | succ n ih =>
    rw [Nat.add_right_comm]
    exact pop.append ih

theorem operation {op : Opcode} (binary : op.Binary) (t : Token) :
    Balanced (Fragment.operation (some op) t).code (h + 2) (h + 1) := by
  obtain ⟨needs, leaves, width⟩ := binary
  have goes : op ≠ .finish := by
    rintro rfl
    cases needs
  have all := @plain (h + 2) op (by omega) width goes
  rw [needs, leaves] at all
  simpa [Fragment.operation, blaming] using all

theorem constant {v : Value} (h : Nat) (value : v.kind ≠ .identifier) :
    Balanced (Fragment.constant v).code h (h + 1) :=
  single (Nat.zero_le _) value (by simp [Asm.successors])

theorem literal (t : Token) : Balanced (Fragment.literal t).code h (h + 1) := by
  have value := constant h t.value_ne_name
  unfold Fragment.literal
  split
  · exact value
  · exact value
  · exact value
  · exact @plain _ .pushTrue (Nat.zero_le _) rfl (by decide)
  · exact @plain _ .pushFalse (Nat.zero_le _) rfl (by decide)
  · exact @plain _ .pushNone (Nat.zero_le _) rfl (by decide)

variable {c s b rest : Fragment} {d : Nat}

theorem conjunction (inner : Balanced b.code h (h + 1)) :
    Balanced (Fragment.conjunction b).code (h + 1) (h + 1) :=
  skip (pop.append inner) (Nat.succ_pos h)

theorem disjunction (inner : Balanced b.code h (h + 1)) :
    Balanced (Fragment.disjunction b).code (h + 1) (h + 1) :=
  choose (nil _) (pop.append inner) (Nat.succ_pos h)

theorem arm (test : Balanced c.code h (h + 1)) (first : Balanced s.code h h)
    (second : Balanced rest.code h h) : Balanced (Fragment.arm c s rest).code h h := by
  have all := test.append (choose (pop.append first) (pop.append second) (Nat.succ_pos h))
  rw [Fragment.arm, guarded, Fragment.append_assoc, Fragment.append_assoc]
  exact all

theorem loop (test : Balanced c.code h (h + 1)) (body : Balanced s.code h h) :
    Balanced (Fragment.loop c s).code h h := by
  have all := again test (pop.append body) pop (Nat.succ_pos h)
  have distance : (guarded c s).size + 3 =
      Asm.total c.code + 3 + Asm.total ([.plain .pop] ++ s.code) + 3 := by
    simp [guarded, Fragment.size, Nat.add_assoc]
  rw [Fragment.loop, distance, guarded, Fragment.append_assoc, Fragment.append_assoc]
  exact all

end Balanced

theorem Expr.balanced {locals : List Text} {h : Nat} (e : Expr) (formed : e.Formed)
    (enough : locals.length ≤ h) : Balanced (e.fragment locals).code h (h + 1) := by
  induction e generalizing h with
  | literal t => exact .literal t
  | name t => simpa [Expr.fragment, Fragment.get, blaming] using Balanced.get t.lexeme enough
  | assign t op e ih =>
    have all := (ih formed enough).append (.set t.lexeme enough)
    simpa [Expr.fragment, blaming] using all
  | compound t op e ih =>
    obtain ⟨o, operator, binary⟩ := Opcode.ofCompound?_of_mem formed.1
    have value := ih formed.2 (Nat.le_succ_of_le enough)
    have all := (Balanced.get t.lexeme enough).append
      (value.append ((Balanced.operation binary op).append (.set t.lexeme enough)))
    simpa [Expr.fragment, Fragment.get, blaming, operator] using all
  | group _ e _ ih => exact ih formed enough
  | unary op e ih =>
    have applied : Balanced [.plain (Opcode.ofUnary op.kind)] (h + 1) (h + 1) := by
      unfold Opcode.ofUnary
      split
      · exact @Balanced.plain _ .negate (Nat.le_add_left 1 h) rfl (by decide)
      · exact @Balanced.plain _ .not (Nat.le_add_left 1 h) rfl (by decide)
    have all := (ih formed.2 enough).append applied
    simpa [Expr.fragment, blaming] using all
  | binary a op b iha ihb =>
    obtain ⟨o, operator, binary⟩ := Opcode.ofBinary?_of_mem formed.1
    have right := ihb formed.2.2 (Nat.le_succ_of_le enough)
    have all := (iha formed.2.1 enough).append (right.append (.operation binary op))
    simpa [Expr.fragment, operator] using all
  | conditional c mark a colon b ihc iha ihb =>
    have yes := iha formed.2.1 (Nat.le_succ_of_le enough)
    have no := ihb formed.2.2 (Nat.le_succ_of_le (Nat.le_succ_of_le enough))
    have select : Balanced [.plain .ternary] (h + 3) (h + 1) :=
      @Balanced.plain _ .ternary (Nat.le_add_left 3 h) rfl (by decide)
    have all := (ihc formed.1 enough).append (yes.append (no.append select))
    simpa [Expr.fragment, blaming] using all
  | and a op b iha ihb => exact (iha formed.1 enough).append (.conjunction (ihb formed.2 enough))
  | or a op b iha ihb => exact (iha formed.1 enough).append (.disjunction (ihb formed.2 enough))

theorem Balanced.binding (top : Bool) (x : Text) (locals : List Text) :
    Balanced (binding top x).code (locals.length + 1) (if top then locals else x :: locals).length := by
  cases top with
  | true => exact .define x
  | false => exact .nil _

mutual

theorem Stmt.balanced (locals : List Text) : (s : Stmt) → (∀ e ∈ s.exprs, e.Formed) →
    Balanced (s.fragment locals).code locals.length locals.length
  | .print _ e _, formed => by
    have value := e.balanced (formed e (by simp [Stmt.exprs])) (Nat.le_refl locals.length)
    exact value.append (@Balanced.plain _ .print (Nat.le_add_left 1 _) rfl (by decide))
  | .expression e _, formed => by
    have value := e.balanced (formed e (by simp [Stmt.exprs])) (Nat.le_refl locals.length)
    exact value.append .pop
  | .branch _ c s r, formed => by
    simp only [Stmt.exprs, List.forall_mem_cons, List.forall_mem_append] at formed
    exact .arm (c.balanced formed.1 (Nat.le_refl _)) (s.balanced locals formed.2.1)
      (r.balanced locals formed.2.2)
  | .loop _ c s, formed => by
    simp only [Stmt.exprs, List.forall_mem_cons] at formed
    exact .loop (c.balanced formed.1 (Nat.le_refl _)) (s.balanced locals formed.2)
  | .block _ ds _, formed => by
    have body := balanced_all false locals ds formed
    rw [if_neg (by decide), List.length_append] at body
    exact body.append (.pops _)

theorem Rest.balanced (locals : List Text) : (r : Rest) → (∀ e ∈ r.exprs, e.Formed) →
    Balanced (r.fragment locals).code locals.length locals.length
  | .done, _ => .nil _
  | .elif _ c s r, formed => by
    simp only [Rest.exprs, List.forall_mem_cons, List.forall_mem_append] at formed
    exact .arm (c.balanced formed.1 (Nat.le_refl _)) (s.balanced locals formed.2.1)
      (r.balanced locals formed.2.2)
  | .otherwise _ s, formed => s.balanced locals formed

theorem Decl.balanced (top : Bool) (locals : List Text) : (d : Decl) → (∀ e ∈ d.exprs, e.Formed) →
    Balanced (d.fragment top locals).code locals.length (d.extend top locals).length
  | .bind _ name _, _ => by
    have value := @Balanced.plain locals.length .pushNone (Nat.zero_le _) rfl (by decide)
    exact value.append (.binding top name.lexeme locals)
  | .bindTo _ name _ e _, formed => by
    have value := e.balanced (formed e (by simp [Decl.exprs])) (Nat.le_refl locals.length)
    exact value.append (.binding top name.lexeme locals)
  | .statement s, formed => by
    have same : (Decl.statement s).extend top locals = locals := by simp [Decl.extend, Decl.bound?]
    rw [same]
    exact s.balanced locals formed

theorem balanced_all (top : Bool) (locals : List Text) : (ds : List Decl) →
    (∀ e ∈ exprsAll ds, e.Formed) →
    Balanced (fragmentAll top locals ds).code locals.length
      (if top then locals else boundNames ds ++ locals).length
  | [], _ => by
    cases top <;> exact .nil _
  | d :: ds, formed => by
    simp only [exprsAll, List.forall_mem_append] at formed
    have first := d.balanced top locals formed.1
    have rest := balanced_all top (d.extend top locals) ds formed.2
    have all := first.append rest
    rw [fragmentAll, code_append, code_marked, boundNames_cons]
    cases top with
    | true => exact all
    | false => exact all

end

end StackScript
