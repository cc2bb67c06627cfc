import StackScript.Span
import StackScript.Text.Quoted

/-! Tokens: a kind, the bytes it was cut from, and where they stand. Kinds outside
the language are kept by name, so that a hand-made token list can hold them. -/

namespace StackScript

inductive TokenKind where
  | eof
  | identifier
  | int
  | float
  | string
  | kwIf
  | kwElif
  | kwElse
  | kwWhile
  | kwFor
  | kwBreak
  | kwContinue
  | kwLet
  | kwPrint
  | kwFn
  | kwLm
  | kwReturn
  | kwClass
  | kwThis
  | kwPub
  | kwStatic
  | kwTrue
  | kwFalse
  | kwNone
  | kwAnd
  | kwOr
  | assign
  | equal
  | bang
  | bangEqual
  | less
  | lessEqual
  | greater
  | greaterEqual
  | plus
  | plusEqual
  | plusPlus
  | minus
  | minusEqual
  | minusMinus
  | star
  | starEqual
  | slash
  | slashEqual
  | percent
  | percentEqual
  | question
  | comma
  | colon
  | semicolon
  | dot
  | leftParen
  | rightParen
  | leftBrace
  | rightBrace
  | leftBracket
  | rightBracket
  | other (label : Text)
deriving DecidableEq

namespace TokenKind

def labels : List (TokenKind × String) :=
  [(.eof, "EOF"), (.identifier, "IDENTIFIER"), (.int, "INT"), (.float, "FLOAT"),
   (.string, "STRING"), (.kwIf, "IF"), (.kwElif, "ELIF"), (.kwElse, "ELSE"), (.kwWhile, "WHILE"),
   (.kwFor, "FOR"), (.kwBreak, "BREAK"), (.kwContinue, "CONTINUE"), (.kwLet, "LET"),
   (.kwPrint, "PRINT"), (.kwFn, "FN"), (.kwLm, "LM"), (.kwReturn, "RETURN"), (.kwClass, "CLASS"),
   (.kwThis, "THIS"), (.kwPub, "PUB"), (.kwStatic, "STATIC"), (.kwTrue, "TRUE"),
   (.kwFalse, "FALSE"), (.kwNone, "NONE"), (.kwAnd, "AND"), (.kwOr, "OR"), (.assign, "ASSIGN"),
   (.equal, "EQUAL"), (.bang, "BANG"), (.bangEqual, "BANGEQUAL"), (.less, "LESS"),
   (.lessEqual, "LESSEQUAL"), (.greater, "GREATER"), (.greaterEqual, "GREATEREQUAL"),
   (.plus, "PLUS"), (.plusEqual, "PLUSEQUAL"), (.plusPlus, "PLUSPLUS"), (.minus, "MINUS"),
   (.minusEqual, "MINUSEQUAL"), (.minusMinus, "MINUSMINUS"), (.star, "STAR"),
   (.starEqual, "STAREQUAL"), (.slash, "SLASH"), (.slashEqual, "SLASHEQUAL"),
   (.percent, "PERCENT"), (.percentEqual, "PERCENTEQUAL"), (.question, "QUESTION"),
   (.comma, "COMMA"), (.colon, "COLON"), (.semicolon, "SEMICOLON"), (.dot, "DOT"),
   (.leftParen, "LPAREN"), (.rightParen, "RPAREN"), (.leftBrace, "LBRACE"),
   (.rightBrace, "RBRACE"), (.leftBracket, "LBRACKET"), (.rightBracket, "RBRACKET")]

def label : TokenKind → Text
  | .other l => l
  | k => utf8 ((labels.find? (·.1 = k)).elim "" (·.2))

def ofLabel (l : Text) : TokenKind :=
  (labels.find? (utf8 ·.2 = l)).elim (.other l) (·.1)

def keywords : List (Text × TokenKind) :=
  ([("if", .kwIf), ("elif", .kwElif), ("else", .kwElse), ("while", .kwWhile), ("for", .kwFor),
   ("break", .kwBreak), ("continue", .kwContinue), ("let", .kwLet), ("print", .kwPrint),
   ("fn", .kwFn), ("lm", .kwLm), ("return", .kwReturn), ("class", .kwClass), ("this", .kwThis),
   ("pub", .kwPub), ("static", .kwStatic), ("true", .kwTrue), ("false", .kwFalse),
   ("none", .kwNone), ("and", .kwAnd), ("or", .kwOr)] : List (String × TokenKind)).map fun (w, k) => (utf8 w, k)

def ofWord (w : Text) : TokenKind :=
  (keywords.find? (·.1 = w)).elim .identifier (·.2)

def startsStatement : TokenKind → Bool
  | .kwClass | .kwFn | .kwLet | .kwFor | .kwIf | .kwWhile | .kwPrint | .kwReturn => true
  | _ => false

end TokenKind

structure Token where
  kind : TokenKind
  lexeme : Text := []
  span : Span := {}
deriving DecidableEq

def Token.display (t : Token) : Text :=
  if t.lexeme = [] then t.kind.label else t.kind.label ++ utf8 " " ++ Text.quoted t.lexeme

end StackScript
