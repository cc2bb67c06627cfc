import Std.Data.TreeMap
import StackScript.Compiler.Fault
import StackScript.Compiler.Scope
import StackScript.Diagnostic.Basic
import StackScript.Token.Basic

/-! A program under construction together with the tokens still to read. A step of
the compilation either goes on or gives up the declaration it is in; whatever it
wrote or read until then stays. The first fault of a declaration is recorded, and
later ones are not until recovery has found a statement to go on with. A compilation
may carry more than its draft, such as what the draft has been before. -/

namespace StackScript

/-- The token list is split at the current token. `upcoming` ends with `eof`. -/
structure Draft where
  previous : Token
  current : Token
  upcoming : List Token
  chunk : Chunk := {}
  spans : SpanTable := #[]
  scope : Scope := {}
  names : Std.TreeMap Text Nat compare := ∅
  faults : List Diagnostic := []
  recovering : Bool := false

inductive GivenUp where
  | mk

abbrev Build := EStateM GivenUp Draft

namespace Draft

def advance (d : Draft) : Draft :=
  if d.current.kind = .eof then { d with previous := d.current }
  else match d.upcoming with
    | t :: rest => { d with previous := d.current, current := t, upcoming := rest }
    | [] => { d with previous := d.current }

/-- Records a fault at a token unless one was recorded and not recovered from. -/
def report (d : Draft) (t : Token) (fault : SyntaxFault) : Draft :=
  if d.recovering then d
  else { d with recovering := true, faults := .atSpan t.span fault.message :: d.faults }

/-- Where recovery stops: after a semicolon, before a statement, before the end of
the block, and at the end. -/
def resumesAt (inBlock : Bool) (previous current : Token) : Bool :=
  current.kind = .eof || previous.kind = .semicolon || current.kind.startsStatement ||
    (inBlock && current.kind = .rightBrace)

def skip (inBlock : Bool) (previous current : Token) : List Token → Token × Token × List Token
  | [] => (previous, current, [])
  | t :: rest =>
    if resumesAt inBlock previous current then (previous, current, t :: rest)
    else skip inBlock current t rest

def synchronize (d : Draft) : Draft :=
  let (previous, current, upcoming) := skip (0 < d.scope.depth) d.previous d.current d.upcoming
  { d with previous, current, upcoming, recovering := false }

def line (d : Draft) : Int := d.previous.span.line

def recordSpan (d : Draft) (start : Nat) (span : Span) : Draft :=
  let stop := d.chunk.code.size
  { d with spans := d.spans.add start stop span }

def write (d : Draft) (b : UInt8) (line : Int) : Draft := { d with chunk := d.chunk.write b line }

def writeWide (d : Draft) (n : Nat) (line : Int) : Draft :=
  { d with chunk := d.chunk.writeWide n line }

def emit (d : Draft) (op : Opcode) : Draft :=
  let line := d.line
  d.write op.toByte line

def emitAt (d : Draft) (op : Opcode) (t : Token) : Draft :=
  let start := d.chunk.code.size
  (d.write op.toByte t.span.line).recordSpan start t.span

def emitByteAt (d : Draft) (op : Opcode) (operand : Nat) (t : Token) : Draft :=
  let start := d.chunk.code.size
  ((d.write op.toByte t.span.line).write (UInt8.ofNat operand) t.span.line).recordSpan start t.span

def emitWideAt (d : Draft) (op : Opcode) (operand : Nat) (t : Token) : Draft :=
  let start := d.chunk.code.size
  ((d.write op.toByte t.span.line).writeWide operand t.span.line).recordSpan start t.span

def emitWide (d : Draft) (op : Opcode) (operand : Nat) : Draft :=
  let line := d.line
  (d.write op.toByte line).writeWide operand line

def emitOpenJump (d : Draft) (op : Opcode) : Draft := d.emitWide op 0xffff

def maxJump : Nat := 0xffff

def enterBlock (d : Draft) : Draft := { d with scope := d.scope.enter }

def emitPops : Nat → Draft → Draft
  | 0, d => d
  | n + 1, d => emitPops n (d.emit .pop)

def leaveBlock (d : Draft) : Draft :=
  let count := d.scope.owned
  emitPops count { d with scope := d.scope.leave }

end Draft

namespace Build

def fail {α : Type} (t : Token) (fault : SyntaxFault) : Build α := do
  modify (·.report t fault)
  throw .mk

def current : Build Token := do return (← get).current

def previous : Build Token := do return (← get).previous

def advance : Build Unit := modify Draft.advance

def take (kind : TokenKind) : Build Bool := do
  if (← get).current.kind = kind then
    advance
    return true
  else return false

def expect (kind : TokenKind) (fault : SyntaxFault) : Build Unit := do
  if (← get).current.kind = kind then advance else fail (← get).current fault

def emit (op : Opcode) : Build Unit := modify (·.emit op)

def emitJump (op : Opcode) : Build Nat := do
  modify (·.emitOpenJump op)
  return (← get).chunk.code.size - 2

def patchJump (pos : Nat) : Build Unit := do
  let distance := (← get).chunk.code.size - pos - 2
  if Draft.maxJump < distance then fail (← get).previous .jumpTooFar
  else modify fun d => { d with chunk := d.chunk.patchWide pos distance }

def emitLoop (start : Nat) : Build Unit := do
  emit .loop
  let distance := (← get).chunk.code.size + 2 - start
  if Draft.maxJump < distance then fail (← get).previous .loopTooLarge
  else modify fun d => let line := d.line; d.writeWide distance line

def emitConstant (v : Value) : Build Unit := do
  if (← get).chunk.hasRoom then
    modify fun d => let line := d.line; { d with chunk := d.chunk.writeConstant v line }
  else fail (← get).previous .fullPool

def nameConstant (t : Token) : Build Nat := do
  match (← get).names[t.lexeme]? with
  | some index => return index
  | none =>
    if (← get).chunk.hasRoom then
      let index := (← get).chunk.constants.size
      modify fun d => { d with
        chunk := d.chunk.addConstant (.name t.lexeme)
        names := d.names.insert t.lexeme index }
      return index
    else fail t .fullPool

end Build

/-- What a draft becomes another one by. -/
inductive Occasion where
  | action
  | declared (name : Text)
  | ready
  | ended (before : Draft) (givenUp : Bool)

/-- States that a compilation can be in: they have a draft, and may keep note of it whenever it
becomes another one. `stuck` is what becomes of it where the fuel is used up, which never happens. -/
class Carrier (σ : Type) where
  draft : σ → Draft
  see : Occasion → Draft → σ → σ
  act {α : Type} : Build α → EStateM GivenUp σ α
  stuck : Draft → Draft
  draft_see (o : Occasion) (d : Draft) (s : σ) : draft (see o d s) = d
  run_act {α : Type} (x : Build α) (s : σ) : (act x).run s =
    match x.run (draft s) with
    | .ok a d => .ok a (see .action d s)
    | .error e d => .error e (see .action d s)

instance : Carrier Draft where
  draft d := d
  see _ d _ := d
  act x := x
  stuck d := d.report d.current .tooDeep
  draft_see _ _ _ := rfl
  run_act x d := by
    cases x.run d <;> rfl

abbrev Compiling (σ : Type) := EStateM GivenUp σ

namespace Build

export Carrier (act)

variable {σ : Type} [Carrier σ] {α : Type}

def outside : Compiling σ α := fun s =>
  .error .mk (Carrier.see .action (Carrier.stuck σ (Carrier.draft s)) s)

def become (o : Occasion) (change : Draft → Draft) (s : σ) : σ :=
  Carrier.see o (change (Carrier.draft s)) s

/-- `change` is done however `body` ends. -/
def andThen (body : Compiling σ Unit) (o : Occasion) (change : Draft → Draft) :
    Compiling σ Unit := fun s =>
  match body s with
  | .ok a s => .ok a (become o change s)
  | .error e s => .error e (become o change s)

end Build

end StackScript
