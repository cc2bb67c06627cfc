import StackScript.Text.Printable
import StackScript.Text.Utf8

/-! Quoted texts, as they stand in listings and messages. Printable characters
stand for themselves; a control character has a short or a numeric escape, and a
byte that belongs to no character is written by its two hexadecimal digits. -/

namespace StackScript.Text

def shortEscape (c : Char) : Option UInt8 :=
  match c.toNat with
  | 0x07 => some 0x61
  | 0x08 => some 0x62
  | 0x0c => some 0x66
  | 0x0a => some 0x6e
  | 0x0d => some 0x72
  | 0x09 => some 0x74
  | 0x0b => some 0x76
  | _ => none

def backslash : UInt8 := 0x5c

def escaped (quote : UInt8) (c : Char) : Text :=
  if c.toNat = quote.toNat || c.toNat = backslash.toNat then [backslash, UInt8.ofNat c.toNat]
  else if isPrintable c then ofChar c
  else match shortEscape c with
    | some letter => [backslash, letter]
    | none =>
      if c.toNat < 0x80 then backslash :: 0x78 :: hex 2 c.toNat
      else if c.toNat < 0x10000 then backslash :: 0x75 :: hex 4 c.toNat
      else backslash :: 0x55 :: hex 8 c.toNat

def doubleQuote : UInt8 := 0x22
def singleQuote : UInt8 := 0x27

/-- Bytes outside every character are shown one by one. -/
def quotedBody : (skip : Nat) → Text → Text → Text
  | _, [], done => done
  | 0, b :: rest, done =>
    let r := runeAt b rest
    let piece := if r.isInvalid then backslash :: 0x78 :: hex 2 b.toNat
      else escaped doubleQuote r.char
    quotedBody (r.size - 1) rest (piece.reverse ++ done)
  | skip + 1, _ :: rest, done => quotedBody skip rest done

def quoted (t : Text) : Text :=
  doubleQuote :: ((doubleQuote :: quotedBody 0 t []).reverse)

def quotedChar (c : Char) : Text := singleQuote :: (escaped singleQuote c ++ [singleQuote])

end StackScript.Text
