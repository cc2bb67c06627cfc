import StackScript.Proofs.Assembly.Generation

/-! The static rules. A tree of the grammar is a program when its literals have values, its
blocks are well scoped, and its code, its constants and its locals stay within what
operands can address. -/

namespace StackScript

mutual

def Stmt.exprs : Stmt → List Expr
  | .print _ e _ | .expression e _ => [e]
  | .branch _ c s rest => c :: (s.exprs ++ rest.exprs)
  | .loop _ c s => c :: s.exprs
  | .block _ ds _ => exprsAll ds

def Rest.exprs : Rest → List Expr
  | .done => []
  | .elif _ c s rest => c :: (s.exprs ++ rest.exprs)
  | .otherwise _ s => s.exprs

def Decl.exprs : Decl → List Expr
  | .bind _ _ _ => []
  | .bindTo _ _ _ e _ => [e]
  | .statement s => s.exprs

def exprsAll : List Decl → List Expr
  | [] => []
  | d :: ds => d.exprs ++ exprsAll ds

end

mutual

/-- The blocks in a statement, at any depth. -/
def Stmt.blocks : Stmt → List (List Decl)
  | .branch _ _ s rest => s.blocks ++ rest.blocks
  | .loop _ _ s => s.blocks
  | .block _ ds _ => ds :: blocksAll ds
  | _ => []

def Rest.blocks : Rest → List (List Decl)
  | .done => []
  | .elif _ _ s rest => s.blocks ++ rest.blocks
  | .otherwise _ s => s.blocks

def Decl.blocks : Decl → List (List Decl)
  | .statement s => s.blocks
  | _ => []

def blocksAll : List Decl → List (List Decl)
  | [] => []
  | d :: ds => d.blocks ++ blocksAll ds

end

mutual

/-- How many locals a statement has on the stack at a time, at most. -/
def Stmt.peak : Stmt → Nat
  | .branch _ _ s rest => max s.peak rest.peak
  | .loop _ _ s => s.peak
  | .block _ ds _ => peakAll false ds
  | _ => 0

def Rest.peak : Rest → Nat
  | .done => 0
  | .elif _ _ s rest => max s.peak rest.peak
  | .otherwise _ s => s.peak

def Decl.peak (top : Bool) : Decl → Nat
  | .statement s => s.peak
  | d => (d.extend top []).length

def peakAll (top : Bool) : List Decl → Nat
  | [] => 0
  | d :: ds => max (d.peak top) ((d.extend top []).length + peakAll top ds)

end

def Expr.Readable (e : Expr) : Prop := ∀ t ∈ e.literals, t.value?.isSome

def Decl.SelfFree : Decl → Prop
  | .bindTo _ name _ e _ => name.lexeme ∉ e.names
  | _ => True

/-- No variable is declared twice in a block, or mentioned by its own initial value. -/
def WellScoped (ds : List Decl) : Prop := (boundNames ds).Nodup ∧ ∀ d ∈ ds, d.SelfFree

/-- The rules on the parts of a tree, where so many locals are on the stack at a time. -/
def Lawful (exprs : List Expr) (blocks : List (List Decl)) (height : Nat) : Prop :=
  (∀ e ∈ exprs, e.Readable) ∧ (∀ b ∈ blocks, WellScoped b) ∧ height ≤ Scope.maxLocals

def Fragment.pool (f : Fragment) : List Value := internAll [] f.uses

theorem pool_program (ds : List Decl) :
    (program ds).pool = internAll [] (fragmentAll true [] ds).uses := by
  simp [program, Fragment.pool]

structure Rules (ds : List Decl) : Prop where
  literals : ∀ e ∈ exprsAll ds, e.Readable
  blocks : ∀ b ∈ blocksAll ds, WellScoped b
  locals : peakAll true ds ≤ Scope.maxLocals
  constants : (program ds).pool.length ≤ Chunk.maxConstants
  jumps : ∀ a ∈ (program ds).code, a.distance ≤ Draft.maxJump

end StackScript
