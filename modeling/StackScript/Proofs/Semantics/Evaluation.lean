import StackScript.Machine.Run
import StackScript.Proofs.Assembly.Generation

/-! What a tree means. Expressions and statements are evaluated on the tree itself, with the
locals that are in scope, one table of globals, and the values printed so far. A loop runs for
at most so many rounds; a tree that needs more under every bound does not end. -/

namespace StackScript

/-- The innermost local stands first. -/
structure World where
  locals : List (Text × Value) := []
  globals : Globals := ∅
  output : List Value := []

def World.forget (w : World) (n : Nat) : World := { w with locals := w.locals.drop n }

inductive Stop where
  | fault (fault : MachineFault)
  | bound

abbrev Eval := EStateM Stop World

def findLocal (x : Text) : List (Text × Value) → Option Value
  | [] => none
  | (y, v) :: rest => if y = x then some v else findLocal x rest

def assignLocal (x : Text) (v : Value) : List (Text × Value) → Option (List (Text × Value))
  | [] => none
  | (y, u) :: rest =>
    if y = x then some ((y, v) :: rest) else (assignLocal x v rest).map ((y, u) :: ·)

namespace TokenKind

def binary : TokenKind → Value → Value → Except OperatorFault Value
  | .plus, a, b => a.add b
  | .minus, a, b => a.subtract b
  | .star, a, b => a.multiply b
  | .slash, a, b => a.divide b
  | .equal, a, b => do a.equatable b; return .bool (a.equal b)
  | .bangEqual, a, b => do a.equatable b; return .bool (!a.equal b)
  | .less, a, b => do a.comparable b; return .bool (a.less b)
  | .lessEqual, a, b => do a.comparable b; return .bool (a.lessEqual b)
  | .greater, a, b => do a.comparable b; return .bool (a.greater b)
  | .greaterEqual, a, b => do a.comparable b; return .bool (a.greaterEqual b)
  | _, a, _ => return a

def compound : TokenKind → Value → Value → Except OperatorFault Value
  | .plusEqual => binary .plus
  | .minusEqual => binary .minus
  | .starEqual => binary .star
  | .slashEqual => binary .slash
  | _ => fun a _ => return a

def unary : TokenKind → Value → Except OperatorFault Value
  | .minus, a => a.negate
  | _, a => return a.not

end TokenKind

namespace Eval

def undefined {α : Type} (x : Text) : Eval α := throw (.fault (.undefinedVariable x))

def read (x : Text) : Eval Value := do
  match findLocal x (← get).locals with
  | some v => return v
  | none =>
    match (← get).globals[x]? with
    | some v => return v
    | none => undefined x

/-- Only a variable that there is can be assigned. -/
def write (x : Text) (v : Value) : Eval Unit := do
  match assignLocal x v (← get).locals with
  | some locals => modify ({ · with locals })
  | none =>
    if (← get).globals.contains x then
      modify fun w => { w with globals := w.globals.insert x v }
    else undefined x

def compute : Except OperatorFault Value → Eval Value
  | .ok v => return v
  | .error e => throw (.fault (.operator e))

def print (v : Value) : Eval Unit := modify fun w => { w with output := w.output ++ [v] }

/-- A variable of the outermost level is a global, any other a local. -/
def declare (top : Bool) (x : Text) (v : Value) : Eval Unit :=
  modify fun w =>
    if top then { w with globals := w.globals.insert x v } else { w with locals := (x, v) :: w.locals }

def scoping (body : Eval Unit) : Eval Unit := do
  let outside := (← get).locals.length
  body
  modify fun w => w.forget (w.locals.length - outside)

def iterate (condition : Eval Value) (body : Eval Unit) : (rounds : Nat) → Eval Unit
  | 0 => throw .bound
  | rounds + 1 => do
    if (← condition).truthy then
      body
      iterate condition body rounds

end Eval

open Eval

def Expr.eval : Expr → Eval Value
  | .literal t => return t.value?.getD .none
  | .name t => read t.lexeme
  | .assign t _ e => do
    let v ← e.eval
    write t.lexeme v
    return v
  | .compound t op e => do
    let a ← read t.lexeme
    let b ← e.eval
    let v ← compute (op.kind.compound a b)
    write t.lexeme v
    return v
  | .group _ e _ => e.eval
  | .unary op e => do compute (op.kind.unary (← e.eval))
  | .binary a op b => do
    let v ← a.eval
    compute (op.kind.binary v (← b.eval))
  | .conditional c _ a _ b => do
    let condition ← c.eval
    let yes ← a.eval
    let no ← b.eval
    return if condition.truthy then yes else no
  | .and a _ b => do
    let v ← a.eval
    if v.truthy then b.eval else return v
  | .or a _ b => do
    let v ← a.eval
    if v.truthy then return v else b.eval

mutual

def Stmt.exec (bound : Nat) : Stmt → Eval Unit
  | .print _ e _ => do Eval.print (← e.eval)
  | .expression e _ => do let _ ← e.eval
  | .branch _ c s rest => do if (← c.eval).truthy then s.exec bound else rest.exec bound
  | .loop _ c s => iterate c.eval (s.exec bound) bound
  | .block _ ds _ => scoping (execAll bound false ds)

def Rest.exec (bound : Nat) : Rest → Eval Unit
  | .done => return
  | .elif _ c s rest => do if (← c.eval).truthy then s.exec bound else rest.exec bound
  | .otherwise _ s => s.exec bound

def Decl.exec (bound : Nat) (top : Bool) : Decl → Eval Unit
  | .bind _ name _ => declare top name.lexeme .none
  | .bindTo _ name _ e _ => do declare top name.lexeme (← e.eval)
  | .statement s => s.exec bound

def execAll (bound : Nat) (top : Bool) : List Decl → Eval Unit
  | [] => return
  | d :: ds => do
    d.exec bound top
    execAll bound top ds

end

/-- How a script ends: with a fault or without, and what it leaves and has printed. -/
structure Conclusion where
  fault : Option MachineFault
  globals : Globals
  output : List Text

def Value.line (v : Value) : Text := Text.line v.display

/-- How a whole text ends when its loops run for at most so many rounds. -/
def evaluate (bound : Nat) (ds : List Decl) (globals : Globals) : Option Conclusion :=
  match (execAll bound true ds).run { globals } with
  | .ok _ w => some ⟨none, w.globals, w.output.map Value.line⟩
  | .error (.fault fault) w => some ⟨some fault, w.globals, w.output.map Value.line⟩
  | .error .bound _ => none

/-- A text ends in a way under some bound on the rounds of its loops. -/
def Evaluates (ds : List Decl) (globals : Globals) (conclusion : Conclusion) : Prop :=
  ∃ bound, evaluate bound ds globals = some conclusion

end StackScript
