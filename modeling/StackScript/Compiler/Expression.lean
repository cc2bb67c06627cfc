import StackScript.Compiler.Draft
import StackScript.Compiler.Literal
import StackScript.Number.Reading

/-! Expressions, by precedence climbing. An expression of a level is an operand and
then operators of that level or a tighter one with what they apply to. Only an
expression of the loosest level can be an assignment. -/

namespace StackScript

inductive Level where
  | none
  | assignment
  | ternary
  | or
  | and
  | equality
  | comparison
  | term
  | factor
  | unary
deriving DecidableEq, Repr

namespace Level

def rank : Level → Nat
  | .none => 0
  | .assignment => 1
  | .ternary => 2
  | .or => 3
  | .and => 4
  | .equality => 5
  | .comparison => 6
  | .term => 7
  | .factor => 8
  | .unary => 9

def tighter : Level → Level
  | .none => .assignment
  | .assignment => .ternary
  | .ternary => .or
  | .or => .and
  | .and => .equality
  | .equality => .comparison
  | .comparison => .term
  | .term => .factor
  | .factor => .unary
  | .unary => .unary

def ofOperator : TokenKind → Level
  | .minus | .plus => .term
  | .slash | .star => .factor
  | .bangEqual | .equal => .equality
  | .greater | .greaterEqual | .less | .lessEqual => .comparison
  | .question => .ternary
  | .kwAnd => .and
  | .kwOr => .or
  | _ => .none

end Level

namespace Opcode

def ofBinary? : TokenKind → Option Opcode
  | .plus => some .add
  | .minus => some .subtract
  | .star => some .multiply
  | .slash => some .divide
  | .equal => some .equals
  | .bangEqual => some .notEquals
  | .greater => some .greater
  | .greaterEqual => some .greaterEquals
  | .less => some .less
  | .lessEqual => some .lessEquals
  | _ => none

def ofCompound? : TokenKind → Option Opcode
  | .plusEqual => some .add
  | .minusEqual => some .subtract
  | .starEqual => some .multiply
  | .slashEqual => some .divide
  | _ => none

end Opcode

def TokenKind.isAssignment (k : TokenKind) : Bool := k = .assign || (Opcode.ofCompound? k).isSome

inductive Place where
  | slot (n : Nat)
  | global (constant : Nat)
deriving DecidableEq

namespace Place

def emitGet (p : Place) (t : Token) (d : Draft) : Draft :=
  match p with
  | .slot n => d.emitByteAt .getLocal n t
  | .global n => d.emitWideAt .getGlobal n t

def emitSet (p : Place) (t : Token) (d : Draft) : Draft :=
  match p with
  | .slot n => d.emitByteAt .setLocal n t
  | .global n => d.emitWideAt .setGlobal n t

end Place

namespace Build

def place (t : Token) : Build Place := do
  match (← get).scope.resolve? t.lexeme with
  | some (slot, l) =>
    if l.ready then return .slot slot else fail t (.ownInitializer t.lexeme)
  | none => return .global (← nameConstant t)

def integerLiteral (t : Token) : Build Unit :=
  match Number.readInt64 t.lexeme with
  | some n => emitConstant (.int n)
  | none => fail t (.integerRange t.lexeme)

def floatLiteral (t : Token) : Build Unit :=
  match Number.readFloat t.lexeme with
  | some f => emitConstant (.float f)
  | none => fail t (.invalidFloat t.lexeme)

def stringLiteral (t : Token) : Build Unit :=
  match Literal.unescape t.lexeme with
  | .ok s => emitConstant (.string s)
  | .error fault => fail t (.literal fault)

variable {σ : Type} [Carrier σ]

/-- A variable, or an assignment to it where one is allowed. A compound assignment
reads the variable before its right side is evaluated. -/
def variableUse (self : Level → Compiling σ Unit) (assignable : Bool) (t : Token) :
    Compiling σ Unit := do
  let p ← act (place t)
  let op ← act current
  if assignable && op.kind = .assign then
    act advance
    self .assignment
    act (modify (p.emitSet t))
  else match if assignable then Opcode.ofCompound? op.kind else none with
    | some arithmetic =>
      act advance
      act (modify (p.emitGet t))
      self .assignment
      act (modify (·.emitAt arithmetic op))
      act (modify (p.emitSet t))
    | none => act (modify (p.emitGet t))

def grouping (self : Level → Compiling σ Unit) (opening : Token) : Compiling σ Unit := do
  self .assignment
  if (← act current).kind = .rightParen then act advance else act (fail opening .expectedParen)

def operand (self : Level → Compiling σ Unit) (assignable : Bool) : Compiling σ Unit := do
  let t ← act previous
  match t.kind with
  | .leftParen => grouping self t
  | .minus =>
    self .unary
    act (modify (·.emitAt .negate t))
  | .bang =>
    self .unary
    act (modify (·.emitAt .not t))
  | .identifier => variableUse self assignable t
  | .string => act (stringLiteral t)
  | .int => act (integerLiteral t)
  | .float => act (floatLiteral t)
  | .kwTrue => act (emit .pushTrue)
  | .kwFalse => act (emit .pushFalse)
  | .kwNone => act (emit .pushNone)
  | _ => act (fail t .expectedExpression)

def conditional (self : Level → Compiling σ Unit) (t : Token) : Compiling σ Unit := do
  self .ternary
  act (expect .colon .expectedColon)
  self .ternary
  act (modify (·.emitAt .ternary t))

def conjunction (self : Level → Compiling σ Unit) : Compiling σ Unit := do
  let exit ← act (emitJump .jumpFalse)
  act (emit .pop)
  self .and
  act (patchJump exit)

def disjunction (self : Level → Compiling σ Unit) : Compiling σ Unit := do
  let otherwise ← act (emitJump .jumpFalse)
  let exit ← act (emitJump .jump)
  act (patchJump otherwise)
  act (emit .pop)
  self .or
  act (patchJump exit)

def operation (self : Level → Compiling σ Unit) : Compiling σ Unit := do
  let t ← act previous
  match t.kind with
  | .question => conditional self t
  | .kwAnd => conjunction self
  | .kwOr => disjunction self
  | k =>
    match Opcode.ofBinary? k with
    | some op =>
      self (Level.ofOperator k).tighter
      act (modify (·.emitAt op t))
    | none => outside

/-- Operations as long as operators of the level or a tighter one follow. Each takes
a token. -/
def operations (self : Level → Compiling σ Unit) (level : Level) : (fuel : Nat) → Compiling σ Unit
  | 0 => outside
  | fuel + 1 => do
    if level.rank ≤ (Level.ofOperator (← act current).kind).rank then
      act advance
      operation self
      operations self level fuel
    else pure ()

def ending (level : Level) : Compiling σ Unit := do
  if level.rank ≤ Level.assignment.rank && (← act current).kind.isAssignment then
    act (fail (← act current) .invalidTarget)
  else pure ()

/-- An expression of a level. Each nesting takes a token, so as many as there are tokens are
enough. -/
def expression : (fuel : Nat) → Level → Compiling σ Unit
  | 0, _ => outside
  | fuel + 1, level => do
    act advance
    operand (expression fuel) (level.rank ≤ Level.assignment.rank)
    operations (expression fuel) level fuel
    ending level

end Build

end StackScript
