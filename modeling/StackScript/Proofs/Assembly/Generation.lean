import StackScript.Proofs.Assembly.Fragment
import StackScript.Proofs.Drafting.Tree

/-! The code of a tree. Under the names of the locals that are on the stack, the innermost
first, a tree has one fragment; jumps lead over the fragments that they skip. Variables of
the outermost level are globals. -/

namespace StackScript

/-- The innermost local of a name by its slot, or else a global. -/
def locate (name : Text) : List Text → Location
  | [] => .global name
  | x :: rest => if x = name then .slot rest.length else locate name rest

def Location.uses : Location → List Value
  | .slot _ => []
  | .global x => [.name x]

def Token.value? (t : Token) : Option Value :=
  match t.kind with
  | .string => (Literal.unescape t.lexeme).toOption.map .string
  | .int => (Number.readInt64 t.lexeme).map .int
  | .float => (Number.readFloat t.lexeme).map .float
  | .kwTrue => some (.bool true)
  | .kwFalse => some (.bool false)
  | _ => some .none

namespace Fragment

def constant (v : Value) : Fragment := ⟨[.load v], [v], []⟩

def blaming (a : Asm) (t : Token) : Fragment := (of [a]).marked t.span

def operation (op : Option Opcode) (t : Token) : Fragment :=
  match op with
  | some op => blaming (.plain op) t
  | none => of []

def literal (t : Token) : Fragment :=
  match t.kind with
  | .string | .int | .float => constant (t.value?.getD .none)
  | .kwTrue => of [.plain .pushTrue]
  | .kwFalse => of [.plain .pushFalse]
  | _ => of [.plain .pushNone]

def get (l : Location) (t : Token) : Fragment := needing l.uses ++ blaming (.get l) t

def define (name : Text) : Fragment := needing [.name name] ++ of [.define name]

def skipped (jump : Nat → Asm) (f : Fragment) : Fragment := of [jump f.size] ++ f

/-- What is left out when the value on top is false. The value itself stays only then. -/
def conjunction (b : Fragment) : Fragment := skipped .jumpFalse (of [.plain .pop] ++ b)

def disjunction (b : Fragment) : Fragment :=
  of [.jumpFalse 3] ++ skipped .jump (of [.plain .pop] ++ b)

def guarded (c s : Fragment) : Fragment :=
  c ++ (of [.jumpFalse (1 + s.size + 3)] ++ (of [.plain .pop] ++ s))

def arm (c s rest : Fragment) : Fragment := guarded c s ++ skipped .jump (of [.plain .pop] ++ rest)

def loop (c s : Fragment) : Fragment :=
  guarded c s ++ (of [.loop ((guarded c s).size + 3)] ++ of [.plain .pop])

def pops (n : Nat) : Fragment := of (List.replicate n (.plain .pop))

end Fragment

open Fragment

def Expr.fragment (locals : List Text) : Expr → Fragment
  | .literal t => Fragment.literal t
  | .name t => get (locate t.lexeme locals) t
  | .assign t _ e =>
    needing (locate t.lexeme locals).uses ++ (e.fragment locals ++
      blaming (.set (locate t.lexeme locals)) t)
  | .compound t op e =>
    get (locate t.lexeme locals) t ++ (e.fragment locals ++
      (operation (Opcode.ofCompound? op.kind) op ++ blaming (.set (locate t.lexeme locals)) t))
  | .group _ e _ => e.fragment locals
  | .unary op e => e.fragment locals ++ blaming (.plain (Opcode.ofUnary op.kind)) op
  | .binary a op b =>
    a.fragment locals ++ (b.fragment locals ++ operation (Opcode.ofBinary? op.kind) op)
  | .conditional c mark a _ b =>
    c.fragment locals ++ (a.fragment locals ++ (b.fragment locals ++ blaming (.plain .ternary) mark))
  | .and a _ b => a.fragment locals ++ conjunction (b.fragment locals)
  | .or a _ b => a.fragment locals ++ disjunction (b.fragment locals)

/-- A variable of the outermost level is defined, a local stays where its value is. -/
def Fragment.binding (top : Bool) (name : Text) : Fragment := if top then define name else of []

mutual

def Stmt.fragment (locals : List Text) : Stmt → Fragment
  | .print _ e _ => e.fragment locals ++ of [.plain .print]
  | .expression e _ => e.fragment locals ++ of [.plain .pop]
  | .branch _ c s rest => arm (c.fragment locals) (s.fragment locals) (rest.fragment locals)
  | .loop _ c s => Fragment.loop (c.fragment locals) (s.fragment locals)
  | .block _ ds _ => fragmentAll false locals ds ++ pops (boundNames ds).length

def Rest.fragment (locals : List Text) : Rest → Fragment
  | .done => of []
  | .elif _ c s rest => arm (c.fragment locals) (s.fragment locals) (rest.fragment locals)
  | .otherwise _ s => s.fragment locals

def Decl.fragment (top : Bool) (locals : List Text) : Decl → Fragment
  | .bind _ name _ => of [.plain .pushNone] ++ binding top name.lexeme
  | .bindTo _ name _ e _ => e.fragment locals ++ binding top name.lexeme
  | .statement s => s.fragment locals

def fragmentAll (top : Bool) (locals : List Text) : List Decl → Fragment
  | [] => of []
  | d :: ds =>
    (d.fragment top locals).marked d.span ++ fragmentAll top (d.extend top locals) ds

end

def program (ds : List Decl) : Fragment := fragmentAll true [] ds ++ of [.plain .finish]

end StackScript
