import StackScript.Compiler.Fault
import StackScript.Text.Quoted

/-! The string that a string literal denotes: what stands between its quotes, with
escapes replaced. -/

namespace StackScript.Literal

def escapeValue : UInt8 → Option UInt8
  | 0x6e => some 0x0a
  | 0x74 => some 0x09
  | 0x72 => some 0x0d
  | 0x5c => some 0x5c
  | 0x22 => some 0x22
  | 0x27 => some 0x27
  | _ => none

/-- The body with its escapes replaced, after what is already done in reverse. -/
def resolve : Text → Text → Except LiteralFault Text
  | [], done => .ok done.reverse
  | b :: rest, done =>
    if b = Text.backslash then
      match rest with
      | [] => .error .unfinishedEscape
      | e :: rest =>
        match escapeValue e with
        | some v => resolve rest (v :: done)
        | none => .error (.unknownEscape e)
    else resolve rest (b :: done)

def unescape (lexeme : Text) : Except LiteralFault Text :=
  if lexeme.length < 2 then .error .malformed else resolve lexeme.tail.dropLast []

end StackScript.Literal
