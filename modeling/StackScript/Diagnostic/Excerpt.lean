import StackScript.Diagnostic.Basic
import StackScript.Text.Character
import StackScript.Text.Lowercase
import StackScript.Text.Quoted

/-! Diagnostics as they are shown: severity and message, the place, the line of the
source that it is on, and a row of carets under the place. Carets are counted in
display columns; tabs before them are kept, so that they line up under the tab stops
of a terminal. -/

namespace StackScript

inductive ColorMode where
  | auto
  | always
  | never
deriving DecidableEq, Repr

namespace ColorMode

def code : ColorMode → Nat
  | .auto => 0
  | .always => 1
  | .never => 2

def ofName? (name : Text) : Option ColorMode :=
  let n := Text.lowercase name
  if n = [] || n = utf8 "auto" then some .auto
  else if n = utf8 "always" then some .always
  else if n = utf8 "never" then some .never
  else none

def unknownMessage (name : Text) : Text := utf8 "unknown color mode " ++ Text.quoted name

/-- Output is never a terminal here, so `auto` is without colour. -/
def paints (mode : ColorMode) : Bool := mode = .always

end ColorMode

namespace Excerpt

def escape (parameters : String) : Text := utf8 "\x1b[" ++ utf8 parameters ++ utf8 "m"

def severityPaint : Severity → Text
  | .info => escape "1;36"
  | .warning => escape "1;33"
  | .error => escape "1;31"
  | .fatal => escape "1;91"
  | _ => escape "1;35"

def boldPaint : Text := escape "1"

def gutterPaint : Text := escape "1;34"

def painted (paints : Bool) (code t : Text) : Text :=
  if paints then code ++ t ++ escape "0" else t

def sourceLine? (source : Text) (line : Int) : Option Text :=
  (source.splitLines[(line - 1).toNat]?).map (Text.dropTrailing 0x0d)

def lead (t : Text) : Text :=
  (Text.runes t).flatMap fun r =>
    if r.char.toNat = 0x09 then [0x09] else Text.spaces (Text.columns r.char)

def width (t : Text) : Nat := (Text.runes t).foldl (fun n r => n + Text.columns r.char) 0

def caret (text : Text) (start stop : Int) : Text × Nat :=
  let first := min start.toNat text.length
  let last := min stop.toNat text.length
  (lead (text.take first), max 1 (width ((text.take last).drop first)))

def body (paints : Bool) (d : Diagnostic) (line : Int) (text : Text) : Text :=
  let number := Text.decimal line
  let margin := Text.spaces number.length
  let bar := painted paints gutterPaint (utf8 "|")
  let rows := margin ++ utf8 " " ++ bar ++ utf8 "\n" ++
    painted paints gutterPaint number ++ utf8 " " ++ bar ++ utf8 " " ++ text ++ utf8 "\n"
  match d.span with
  | none => rows
  | some s =>
    let (lead, count) := caret text s.start s.stop
    rows ++ margin ++ utf8 " " ++ bar ++ utf8 " " ++ lead ++
      painted paints (severityPaint d.severity) (List.replicate count 0x5e) ++ utf8 "\n"

/-- A diagnostic as it is shown; `source` finds the text of a file. -/
def render (paints : Bool) (source : Text → Option Text) (d : Diagnostic) : Text :=
  let head := painted paints (severityPaint d.severity) d.severity.label ++ utf8 ": " ++
    painted paints boldPaint d.message ++ utf8 "\n"
  let line := d.span.elim d.line (·.line)
  let file := d.span.elim d.file (·.file)
  if line ≤ 0 then head
  else
    head ++ utf8 " " ++ painted paints gutterPaint (utf8 "-->") ++ utf8 " " ++ d.pointer ++
      utf8 "\n" ++
      match (source file).bind (sourceLine? · line) with
      | none => utf8 "could not read source for path `" ++ file ++ utf8 "`\n"
      | some text => body paints d line text

end Excerpt

end StackScript
