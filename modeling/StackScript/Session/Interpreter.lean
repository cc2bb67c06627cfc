import StackScript.Compiler.Basic
import StackScript.Diagnostic.Excerpt
import StackScript.Machine.Run
import StackScript.Options.Basic

/-! An interpreter: a machine whose globals persist from one input to the next, the
options it was made with, where its output goes, the sources it can quote, and the
error of its last input. It is busy while an input runs. -/

namespace StackScript

inductive Channel where
  | primary
  | secondary
deriving DecidableEq, Repr

inductive Outcome where
  | ok
  | compileError
  | runtimeError
  | unknown
deriving DecidableEq, Repr

namespace Outcome

def label : Outcome → Text
  | .ok => utf8 "ok"
  | .compileError => utf8 "compile error"
  | .runtimeError => utf8 "runtime error"
  | .unknown => utf8 "unknown"

def exitCode : Outcome → Nat
  | .ok => 0
  | .compileError => 65
  | _ => 70

/-- Outcomes by number, in the order in which they are listed. -/
def ofCode : Int → Outcome
  | 0 => .ok
  | 1 => .compileError
  | 2 => .runtimeError
  | _ => .unknown

end Outcome

inductive InputError where
  | faults (ds : List Diagnostic)
  | runtime (e : RuntimeError)
  | busy
deriving DecidableEq

def busyMessage : Text := utf8 "interpreter is busy"

structure Interpreter where
  machine : Machine
  options : Options
  out : Channel := .primary
  err : Channel := .primary
  paints : Bool
  sources : Std.TreeMap Text Text compare := ∅
  lastError : Option InputError := none
  busy : Bool := false

namespace Interpreter

def new (options : Options) : Interpreter where
  machine := ({} : Machine).setMaxStack options.maxStack |>.setLimit options.instructionLimit
  options
  paints := ((ColorMode.ofName? options.color).getD .auto).paints

/-- A new place for diagnostics knows no sources yet. -/
def redirectErrors (c : Channel) (i : Interpreter) : Interpreter := { i with err := c, sources := ∅ }

def duplicate (i : Interpreter) : Interpreter where
  machine := i.machine.duplicate
  options := i.options
  out := i.out
  err := i.err
  paints := i.paints

/-- Takes in an input: it is quotable from now on and no error is known. -/
def accept (file source : Text) (i : Interpreter) : Interpreter :=
  { i with busy := true, lastError := none, sources := i.sources.insert file source }

def render (disk : Text → Option Text) (i : Interpreter) (d : Diagnostic) : Text :=
  Excerpt.render i.paints (fun file => i.sources[file]?.or (disk file)) d

end Interpreter

namespace TokenDump

def row (t : Token) : Text :=
  Text.padLeft 4 (Text.decimal t.span.line) ++ utf8 " " ++ Text.padRight 14 t.kind.label ++
    utf8 " " ++ Text.quoted t.lexeme ++ utf8 "\n"

def rows (file source : Text) : List Text :=
  let lexed := Lexer.tokens file source
  lexed.tokens.map row ++
    match lexed.failure with
    | some e => [utf8 "   - " ++ Text.padRight 14 (utf8 "ERROR") ++ utf8 " " ++ e.display ++ utf8 "\n"]
    | none => []

end TokenDump

/-- What the debug option shows before an instruction: the stack and the row of the
instruction. -/
def traceRows (p : Program) (m : Machine) : Text :=
  Text.spaces 10 ++
    m.stack.toList.flatMap (fun v => utf8 "[ " ++ v.listed ++ utf8 " ]") ++ utf8 "\n" ++
    (Listing.instructionOrFault p.chunk m.ip).1

end StackScript
