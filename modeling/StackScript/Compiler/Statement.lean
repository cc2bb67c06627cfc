import StackScript.Compiler.Expression

/-! Statements and declarations. A declaration that is given up skips to where a
statement may begin; a block is closed, and its locals leave the stack, also when it
is given up. -/

namespace StackScript.Build

variable {σ : Type} [Carrier σ]

def printStatement (expr : Compiling σ Unit) : Compiling σ Unit := do
  expr
  act (expect .semicolon (.expectedSemicolon "value"))
  act (emit .print)

def expressionStatement (expr : Compiling σ Unit) : Compiling σ Unit := do
  expr
  act (expect .semicolon (.expectedSemicolon "expression"))
  act (emit .pop)

def arm (expr stmt : Compiling σ Unit) : Compiling σ Nat := do
  expr
  let skip ← act (emitJump .jumpFalse)
  act (emit .pop)
  stmt
  let exit ← act (emitJump .jump)
  act (patchJump skip)
  act (emit .pop)
  return exit

/-- The arms of an `if`. Gives the open jumps to the end, the last one first. -/
def arms (expr stmt : Compiling σ Unit) : (fuel : Nat) → List Nat → Compiling σ (List Nat)
  | 0, _ => outside
  | fuel + 1, exits => do
    let exit ← arm expr stmt
    if ← act (take .kwElif) then arms expr stmt fuel (exit :: exits) else return exit :: exits

def patchAll : List Nat → Compiling σ Unit
  | [] => pure ()
  | pos :: rest => do
    act (patchJump pos)
    patchAll rest

def ifStatement (expr stmt : Compiling σ Unit) (fuel : Nat) : Compiling σ Unit := do
  let exits ← arms expr stmt fuel []
  if ← act (take .kwElse) then stmt else pure ()
  patchAll exits.reverse

def whileStatement (expr stmt : Compiling σ Unit) : Compiling σ Unit := do
  let start := (← act get).chunk.code.size
  expr
  let exit ← act (emitJump .jumpFalse)
  act (emit .pop)
  stmt
  act (emitLoop start)
  act (patchJump exit)
  act (emit .pop)

def initializer (expr : Compiling σ Unit) : Compiling σ Unit := do
  if ← act (take .assign) then expr else act (emit .pushNone)
  act (expect .semicolon (.expectedSemicolon "variable declaration"))

/-- In a block the variable is a local, whose value stays where it was computed. It
can be read as soon as its declaration has ended, even in a fault. -/
def letDeclaration (expr : Compiling σ Unit) : Compiling σ Unit := do
  act (expect .identifier .expectedName)
  let name ← act previous
  let scope := (← act get).scope
  if scope.depth = 0 then
    initializer expr
    let index ← act (nameConstant name)
    act (modify (·.emitWide .defGlobal index))
  else if scope.declaredHere name.lexeme then act (fail name (.redeclared name.lexeme))
  else match scope.declare? name.lexeme with
    | none => act (fail name .tooManyLocals)
    | some scope =>
      modify (become (.declared name.lexeme) fun d => { d with scope })
      andThen (initializer expr) .ready fun d => { d with scope := d.scope.markReady }

/-- A declaration never gives up what surrounds it. -/
def declaration (expr stmt : Compiling σ Unit) : Compiling σ Unit := fun s =>
  let before := Carrier.draft s
  -- read before the body runs, so that a carrier without notes need not keep the draft
  let start := before.chunk.code.size
  let first := before.current.span
  let body : Compiling σ Unit := do if ← act (take .kwLet) then letDeclaration expr else stmt
  match body s with
  | .ok _ s =>
    let last := (Carrier.draft s).previous.span
    .ok () (become (.ended before false) (·.recordSpan start (first.join last)) s)
  | .error _ s => .ok () (become (.ended before true) Draft.synchronize s)

def blockBody (decl : Compiling σ Unit) : (fuel : Nat) → Compiling σ Unit
  | 0 => outside
  | fuel + 1 => do
    let kind := (← act current).kind
    if kind = .rightBrace || kind = .eof then act (expect .rightBrace .expectedBlockEnd)
    else
      decl
      blockBody decl fuel

/-- A statement. Each nesting takes a token, so as many as there are tokens are enough. -/
def statement (expr : Compiling σ Unit) : (fuel : Nat) → Compiling σ Unit
  | 0 => outside
  | fuel + 1 => do
    match (← act current).kind with
    | .kwPrint =>
      act advance
      printStatement expr
    | .kwIf =>
      act advance
      ifStatement expr (statement expr fuel) fuel
    | .kwWhile =>
      act advance
      whileStatement expr (statement expr fuel)
    | .leftBrace =>
      act advance
      act (modify Draft.enterBlock)
      andThen (blockBody (declaration expr (statement expr fuel)) fuel) .action Draft.leaveBlock
    | _ => expressionStatement expr

def declarations (decl : Compiling σ Unit) : (fuel : Nat) → Compiling σ Unit
  | 0 => outside
  | fuel + 1 => do
    if ← act (take .eof) then pure ()
    else
      decl
      declarations decl fuel

def text (fuel : Nat) : Compiling σ Unit :=
  let expr := expression fuel .assignment
  declarations (declaration expr (statement expr fuel)) fuel

end StackScript.Build
