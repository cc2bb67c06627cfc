import StackScript.Text.Character
import StackScript.Token.Basic

/-! Cutting a source into tokens. Between tokens lies a gap of blanks and comments,
where a block comment that is never closed runs to the end. After the gap the
longest token is taken: a name or keyword, a number, a string, or an operator of one
or two bytes. Everything here is a count of leading bytes, so what is cut off is a
piece of the source and what is left is the rest of it. -/

namespace StackScript

namespace Lexer

inductive GapMode where
  | between
  | lineComment
  | blockComment
deriving DecidableEq

def isBlank (b : UInt8) : Bool := b = 0x20 || b = 0x09 || b = 0x0d || b = 0x0a

/-- The length of the gap at the front of a text, added to `n`. -/
def gapFrom : GapMode → Text → Nat → Nat
  | _, [], n => n
  | .between, 0x2f :: 0x2f :: rest, n => gapFrom .lineComment rest (n + 2)
  | .between, 0x2f :: 0x2a :: rest, n => gapFrom .blockComment rest (n + 2)
  | .between, b :: rest, n => if isBlank b then gapFrom .between rest (n + 1) else n
  | .lineComment, b :: rest, n =>
    gapFrom (if b = Text.newline then .between else .lineComment) rest (n + 1)
  | .blockComment, 0x2a :: 0x2f :: rest, n => gapFrom .between rest (n + 2)
  | .blockComment, _ :: rest, n => gapFrom .blockComment rest (n + 1)

def gapLength (t : Text) : Nat := gapFrom .between t 0

def startsWord (c : Char) : Bool := c = '_' || Text.isLetter c

def continuesWord (c : Char) : Bool := startsWord c || Text.isDecimalDigit c

/-- The length of the word characters at the front, added to `n`; `skip` bytes still
belong to the character before. -/
def wordFrom : (skip : Nat) → Text → Nat → Nat
  | _, [], n => n
  | skip + 1, _ :: rest, n => wordFrom skip rest (n + 1)
  | 0, b :: rest, n =>
    let r := Text.runeAt b rest
    if continuesWord r.char then wordFrom (r.size - 1) rest (n + 1) else n

def wordLength (t : Text) : Nat := wordFrom 0 t 0

def digitsFrom : Text → Nat → Nat
  | [], n => n
  | b :: rest, n => if Text.isDigit b then digitsFrom rest (n + 1) else n

def digitsLength (t : Text) : Nat := digitsFrom t 0

/-- The length of the string body and its closing quote at the front, added to `n`;
a backslash shields the byte after it. -/
def stringFrom (quote : UInt8) : Text → Nat → Option Nat
  | [], _ => none
  | b :: rest, n =>
    if b = quote then some (n + 1)
    else if b = Text.backslash then
      match rest with
      | [] => none
      | _ :: rest => stringFrom quote rest (n + 2)
    else stringFrom quote rest (n + 1)

def pairKind : UInt8 → UInt8 → Option TokenKind
  | 0x2d, 0x3d => some .minusEqual
  | 0x2d, 0x2d => some .minusMinus
  | 0x2b, 0x3d => some .plusEqual
  | 0x2b, 0x2b => some .plusPlus
  | 0x2a, 0x3d => some .starEqual
  | 0x2f, 0x3d => some .slashEqual
  | 0x25, 0x3d => some .percentEqual
  | 0x21, 0x3d => some .bangEqual
  | 0x3d, 0x3d => some .equal
  | 0x3c, 0x3d => some .lessEqual
  | 0x3e, 0x3d => some .greaterEqual
  | _, _ => none

def singleKind : UInt8 → Option TokenKind
  | 0x28 => some .leftParen
  | 0x29 => some .rightParen
  | 0x7b => some .leftBrace
  | 0x7d => some .rightBrace
  | 0x5b => some .leftBracket
  | 0x5d => some .rightBracket
  | 0x2c => some .comma
  | 0x2e => some .dot
  | 0x3b => some .semicolon
  | 0x3a => some .colon
  | 0x3f => some .question
  | 0x2d => some .minus
  | 0x2b => some .plus
  | 0x2a => some .star
  | 0x2f => some .slash
  | 0x25 => some .percent
  | 0x21 => some .bang
  | 0x3d => some .assign
  | 0x3c => some .less
  | 0x3e => some .greater
  | _ => none

inductive Scan where
  | found (kind : TokenKind) (size : Nat)
  | unterminated
  | unexpected (r : Text.Rune)

def scanNumber (t : Text) : Scan :=
  let whole := digitsLength t
  match t.drop whole with
  | 0x2e :: rest =>
    let places := digitsLength rest
    if places = 0 then .found .int whole else .found .float (whole + 1 + places)
  | _ => .found .int whole

def scan (b : UInt8) (rest : Text) : Scan :=
  if b = Text.doubleQuote || b = Text.singleQuote then
    match stringFrom b rest 1 with
    | some size => .found .string size
    | none => .unterminated
  else match rest.head?.bind (pairKind b) with
    | some kind => .found kind 2
    | none =>
      match singleKind b with
      | some kind => .found kind 1
      | none =>
        if Text.isDigit b then scanNumber (b :: rest)
        else
          let r := Text.runeAt b rest
          if startsWord r.char then
            let size := wordLength (b :: rest)
            .found (.ofWord ((b :: rest).take size)) size
          else .unexpected r

end Lexer

inductive LexicalFault where
  | unterminatedString
  | unexpectedCharacter (c : Char)
deriving DecidableEq

namespace LexicalFault

def label : LexicalFault → Text
  | .unterminatedString => utf8 "unterminated string"
  | .unexpectedCharacter _ => utf8 "unexpected character"

def labelOfCode : Int → Text
  | 0 => utf8 "unterminated string"
  | 1 => utf8 "unexpected character"
  | _ => utf8 "lexical error"

def message : LexicalFault → Text
  | .unterminatedString => utf8 "unterminated string"
  | .unexpectedCharacter c => utf8 "unexpected character " ++ Text.quotedChar c

end LexicalFault

structure LexicalError where
  fault : LexicalFault
  span : Span
deriving DecidableEq

def LexicalError.display (e : LexicalError) : Text := e.span.display ++ utf8 ": " ++ e.fault.message

/-- A place in a source: what is left of it, how many bytes lie before, the line and
where that line begins. -/
structure Cursor where
  rest : Text
  offset : Nat := 0
  line : Nat := 1
  lineStart : Nat := 0
deriving DecidableEq

namespace Cursor

def advance : Nat → Cursor → Cursor
  | 0, c => c
  | n + 1, c =>
    match c.rest with
    | [] => c
    | b :: rest =>
      if b = Text.newline then advance n ⟨rest, c.offset + 1, c.line + 1, c.offset + 1⟩
      else advance n ⟨rest, c.offset + 1, c.line, c.lineStart⟩

def column (c : Cursor) : Nat := c.offset - c.lineStart

def span (c : Cursor) (file : Text) (start stop : Nat) : Span := ⟨file, c.line, start, stop⟩

/-- The column after a lexeme that begins at the cursor; of one with several lines
only the first counts. -/
def stopAfter (c : Cursor) (lexeme : Text) : Nat :=
  c.column + (lexeme.takeWhile (· ≠ Text.newline)).length

/-- The next token or fault and the place after it. At the end the token is `eof`,
over and over. -/
def next (file : Text) (c : Cursor) : Except LexicalError Token × Cursor :=
  let c := c.advance (Lexer.gapLength c.rest)
  match c.rest with
  | [] => (.ok ⟨.eof, [], c.span file c.column (c.column + 1)⟩, c)
  | b :: rest =>
    match Lexer.scan b rest with
    | .found kind size =>
      let lexeme := c.rest.take size
      (.ok ⟨kind, lexeme, c.span file c.column (c.stopAfter lexeme)⟩, c.advance size)
    | .unterminated =>
      (.error ⟨.unterminatedString, c.span file c.column (c.column + 1)⟩, c.advance c.rest.length)
    | .unexpected r =>
      (.error ⟨.unexpectedCharacter r.char, c.span file c.column (c.column + r.size)⟩,
        c.advance r.size)

end Cursor

structure Lexed where
  tokens : List Token
  failure : Option LexicalError := none

namespace Lexer

/-- Each token takes a byte at least, so `fuel` above the length of the rest reaches
the end. -/
def tokensFrom (file : Text) : (fuel : Nat) → Cursor → List Token → Lexed
  | 0, _, done => ⟨done.reverse, none⟩
  | fuel + 1, c, done =>
    match c.next file with
    | (.error e, _) => ⟨done.reverse, some e⟩
    | (.ok t, c) =>
      if t.kind = .eof then ⟨(t :: done).reverse, none⟩ else tokensFrom file fuel c (t :: done)

def tokens (file source : Text) : Lexed :=
  tokensFrom file (source.length + 1) ⟨source, 0, 1, 0⟩ []

/-- The answers of `count` calls on one cursor, going on after faults and past the
end. -/
def steps (file : Text) : (count : Nat) → Cursor → List (Except LexicalError Token)
  | 0, _ => []
  | count + 1, c =>
    let (answer, c) := c.next file
    answer :: steps file count c

end Lexer

end StackScript
