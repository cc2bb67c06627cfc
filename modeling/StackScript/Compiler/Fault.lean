import StackScript.Code.Chunk
import StackScript.Text.Utf8

/-! What a compilation can object to, and the words for it. -/

namespace StackScript

inductive LiteralFault where
  | malformed
  | unfinishedEscape
  | unknownEscape (b : UInt8)
deriving DecidableEq

inductive SyntaxFault where
  | expectedName
  | redeclared (name : Text)
  | tooManyLocals
  | expectedSemicolon (after : String)
  | expectedBlockEnd
  | expectedExpression
  | invalidTarget
  | expectedParen
  | expectedColon
  | integerRange (lexeme : Text)
  | invalidFloat (lexeme : Text)
  | literal (fault : LiteralFault)
  | ownInitializer (name : Text)
  | fullPool
  | jumpTooFar
  | loopTooLarge
  | tooDeep
deriving DecidableEq

def LiteralFault.message : LiteralFault → Text
  | .malformed => utf8 "malformed string literal"
  | .unfinishedEscape => utf8 "unfinished escape sequence"
  | .unknownEscape b =>
    utf8 "unknown escape sequence `\\" ++ Text.ofChar (Char.ofNat b.toNat) ++ utf8 "`"

def SyntaxFault.message : SyntaxFault → Text
  | .expectedName => utf8 "expected variable name after `let`"
  | .redeclared name => utf8 "variable `" ++ name ++ utf8 "` is already declared in this scope"
  | .tooManyLocals => utf8 "too many local variables in scope"
  | .expectedSemicolon after => utf8 "expected ';' after " ++ utf8 after
  | .expectedBlockEnd => utf8 "expected '\x7d' after block"
  | .expectedExpression => utf8 "expected expression"
  | .invalidTarget => utf8 "invalid assignment target"
  | .expectedParen => utf8 "expected ')' after expression"
  | .expectedColon => utf8 "expected `:` after expression"
  | .integerRange lexeme => utf8 "integer literal `" ++ lexeme ++ utf8 "` is out of range"
  | .invalidFloat lexeme => utf8 "invalid float literal `" ++ lexeme ++ utf8 "`"
  | .literal fault => fault.message
  | .ownInitializer name =>
    utf8 "cannot read local variable `" ++ name ++ utf8 "` in its own initializer"
  | .fullPool => fullPoolMessage
  | .jumpTooFar => utf8 "too much code to jump over"
  | .loopTooLarge => utf8 "loop body too large"
  | .tooDeep => utf8 "nesting too deep"

end StackScript
