import StackScript.Proofs.Drafting.Run
import StackScript.Proofs.Syntax.Tree

/-! Compilation along a tree. The same code is written as while parsing, but the tree
says what comes next: a token is read over and never looked at, and a fault gives up
everything. -/

namespace StackScript

def Build.literal (t : Token) : Build Unit :=
  match t.kind with
  | .string => stringLiteral t
  | .int => integerLiteral t
  | .float => floatLiteral t
  | .kwTrue => emit .pushTrue
  | .kwFalse => emit .pushFalse
  | _ => emit .pushNone

theorem Build.literal_cases (t : Token) : Loads t (literal t) ∨ ∃ op, literal t = emit op := by
  unfold literal
  split
  · exact .inl (stringLiteral_loads t)
  · exact .inl (integerLiteral_loads t)
  · exact .inl (floatLiteral_loads t)
  all_goals exact .inr ⟨_, rfl⟩

def Opcode.ofUnary (k : TokenKind) : Opcode := if k = .minus then .negate else .not

def Build.emitFor (op : Option Opcode) (t : Token) : Build Unit :=
  match op with
  | some op => modify (·.emitAt op t)
  | none => pure ()

open Build

def Expr.build : Expr → Build Unit
  | .literal t => do
    advance
    Build.literal t
  | .name t => do
    advance
    let p ← place t
    modify (p.emitGet t)
  | .assign target _ e => do
    advance
    let p ← place target
    advance
    e.build
    modify (p.emitSet target)
  | .compound target op e => do
    advance
    let p ← place target
    advance
    modify (p.emitGet target)
    e.build
    emitFor (Opcode.ofCompound? op.kind) op
    modify (p.emitSet target)
  | .group _ e _ => do
    advance
    e.build
    advance
  | .unary op e => do
    advance
    e.build
    modify (·.emitAt (Opcode.ofUnary op.kind) op)
  | .binary a op b => do
    a.build
    advance
    b.build
    emitFor (Opcode.ofBinary? op.kind) op
  | .conditional c mark a _ b => do
    c.build
    advance
    a.build
    advance
    b.build
    modify (·.emitAt .ternary mark)
  | .and a _ b => do
    a.build
    advance
    conjunction fun _ => b.build
  | .or a _ b => do
    a.build
    advance
    disjunction fun _ => b.build

def Build.declare (name : Token) (value : Build Unit) : Build Unit := do
  let scope := (← get).scope
  if scope.depth = 0 then
    value
    let index ← nameConstant name
    modify (·.emitWide .defGlobal index)
  else if scope.declaredHere name.lexeme then fail name (.redeclared name.lexeme)
  else match scope.declare? name.lexeme with
    | none => fail name .tooManyLocals
    | some scope =>
      modify fun d => { d with scope }
      andThen value .ready fun d => { d with scope := d.scope.markReady }

def Build.marked (span : Span) (body : Build Unit) : Build Unit := do
  let start := (← get).chunk.code.size
  body
  modify fun d => d.recordSpan start span

theorem Build.run_marked (span : Span) (body : Build Unit) (d : Draft) :
    (marked span body).run d =
      match body.run d with
      | .ok _ d' => .ok () (d'.recordSpan d.chunk.code.size span)
      | .error e d' => .error e d' := by
  simp only [marked, EStateM.run_bind, EStateM.run_get]
  cases body.run d <;> rfl

mutual

def Stmt.build : Stmt → Build Unit
  | .print _ e _ => do
    advance
    e.build
    advance
    emit .print
  | .expression e _ => do
    e.build
    advance
    emit .pop
  | .branch _ c s rest => do
    advance
    let exit ← arm c.build s.build
    rest.build [exit]
  | .loop _ c s => do
    advance
    whileStatement c.build s.build
  | .block _ ds _ => do
    advance
    modify Draft.enterBlock
    buildAll ds
    advance
    modify Draft.leaveBlock

/-- What follows an arm, with the jumps that are open from the arms before, the last
one first. -/
def Rest.build : Rest → List Nat → Build Unit
  | .done, exits => patchAll exits.reverse
  | .elif _ c s rest, exits => do
    advance
    let exit ← arm c.build s.build
    rest.build (exit :: exits)
  | .otherwise _ s, exits => do
    advance
    s.build
    patchAll exits.reverse

def Decl.body : Decl → Build Unit
  | .bind _ name _ => do
    advance
    advance
    declare name do
      emit .pushNone
      advance
  | .bindTo _ name _ e _ => do
    advance
    advance
    declare name do
      advance
      e.build
      advance
  | .statement s => s.build

def buildAll : List Decl → Build Unit
  | [] => pure ()
  | d :: ds => do
    marked d.span d.body
    buildAll ds

end

def Decl.build (d : Decl) : Build Unit := marked d.span d.body

theorem buildAll_cons (d : Decl) (ds : List Decl) :
    buildAll (d :: ds) = (do d.build; buildAll ds) :=
  rfl

end StackScript
