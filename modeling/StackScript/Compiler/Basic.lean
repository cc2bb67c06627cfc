import StackScript.Compiler.Statement
import StackScript.Token.Lexer

/-! Compilation of a token list or of a source. There is a program exactly when no
fault was recorded; a lexical fault is the only one of its compilation. -/

namespace StackScript

/-- The tokens with an end, which is added where the last one is none. -/
def withEnd (file : Text) (tokens : List Token) : List Token :=
  match tokens.getLast? with
  | some t => if t.kind = .eof then tokens else tokens ++ [⟨.eof, [], { file }⟩]
  | none => [⟨.eof, [], { file }⟩]

namespace Draft

def start (file : Text) (tokens : List Token) : Draft :=
  let before : Token := ⟨.other [], [], {}⟩
  match withEnd file tokens with
  | t :: rest => { previous := before, current := t, upcoming := rest }
  | [] => { previous := before, current := before, upcoming := [] }

def finish (d : Draft) : Draft :=
  match Build.text (d.upcoming.length + 2) d with
  | .ok _ d => d.emit .finish
  | .error _ d => d.emit .finish

end Draft

def compileTokens (file : Text) (tokens : List Token) : Except (List Diagnostic) Program :=
  let d := (Draft.start file tokens).finish
  match d.faults with
  | [] => .ok ⟨file, d.chunk, d.spans⟩
  | faults => .error faults.reverse

def LexicalError.diagnostic (e : LexicalError) : Diagnostic := .atSpan e.span e.fault.message

def compile (file source : Text) : Except (List Diagnostic) Program :=
  match Lexer.tokens file source with
  | ⟨_, some e⟩ => .error [e.diagnostic]
  | ⟨tokens, none⟩ => compileTokens file tokens

end StackScript
