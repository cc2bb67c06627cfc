import StackScript.Span

/-! A diagnostic is a message about a place: a span, or only a line, or neither. -/

namespace StackScript

inductive Severity where
  | info
  | warning
  | error
  | fatal
  | debug
  | unknown
deriving DecidableEq, Repr

namespace Severity

def label : Severity → Text
  | .info => utf8 "info"
  | .warning => utf8 "warning"
  | .error => utf8 "error"
  | .fatal => utf8 "fatal"
  | .debug => utf8 "debug"
  | .unknown => utf8 "unknown"

/-- Severities by number, in the order in which they are listed. -/
def ofCode : Int → Severity
  | 0 => .info
  | 1 => .warning
  | 2 => .error
  | 3 => .fatal
  | 4 => .debug
  | _ => .unknown

end Severity

/-- `line` is zero when no line is known. With a span, `file` and `line` repeat it
unless the diagnostic was made by hand. -/
structure Diagnostic where
  severity : Severity := .error
  message : Text
  span : Option Span := none
  file : Text := []
  line : Int := 0
deriving DecidableEq

namespace Diagnostic

def atSpan (span : Span) (message : Text) : Diagnostic :=
  { message, span := some span, file := span.file, line := span.line }

def atLine (file : Text) (line : Int) (message : Text) : Diagnostic := { message, file, line }

def pointer (d : Diagnostic) : Text :=
  match d.span with
  | some s =>
    s.file ++ utf8 ":" ++ Text.decimal s.line ++ utf8 ":" ++ Text.decimal s.column
  | none => if 0 < d.line then d.file ++ utf8 ":" ++ Text.decimal d.line else d.file

def display (d : Diagnostic) : Text :=
  if d.pointer = [] then d.message else d.pointer ++ utf8 ": " ++ d.message

/-- The text of all the diagnostics of one compilation: the first, and how many
more there are. -/
def summary : List Diagnostic → Text
  | [] => utf8 "no errors"
  | [d] => d.display
  | d :: rest =>
    d.display ++ utf8 " (and " ++ Text.natural rest.length ++ utf8 " more errors)"

end Diagnostic

end StackScript
