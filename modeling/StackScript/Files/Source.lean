import StackScript.Files.Tree
import StackScript.Options.Basic
import StackScript.Text.Utf8

/-! Reading the source file of a script in its encoding, which is UTF-8 or Shift_JIS. In
Shift_JIS a byte below 0x80 is itself, half-width katakana take one byte, and other
characters take two, which name a cell of a table of 94 columns. The table here has the
fullwidth digits and letters, both kana, Greek, Cyrillic and a few signs; every other
cell is U+FFFD. A lead byte whose trail byte cannot be one is U+FFFD by itself, and so is
a lead byte at the end. -/

namespace StackScript.ShiftJis

/-- `count` cells from `column` on hold characters from `code` on. -/
structure CellRun where
  row : Nat
  column : Nat
  count : Nat
  code : Nat

def cells : List CellRun :=
  [⟨0, 0, 3, 0x3000⟩, ⟨0, 27, 1, 0x30fc⟩, ⟨0, 53, 2, 0x300c⟩,
   ⟨2, 15, 10, 0xff10⟩, ⟨2, 32, 26, 0xff21⟩, ⟨2, 64, 26, 0xff41⟩,
   ⟨3, 0, 83, 0x3041⟩, ⟨4, 0, 86, 0x30a1⟩,
   ⟨5, 0, 17, 0x391⟩, ⟨5, 17, 7, 0x3a3⟩, ⟨5, 32, 17, 0x3b1⟩, ⟨5, 49, 7, 0x3c3⟩,
   ⟨6, 0, 6, 0x410⟩, ⟨6, 6, 1, 0x401⟩, ⟨6, 7, 26, 0x416⟩,
   ⟨6, 48, 6, 0x430⟩, ⟨6, 54, 1, 0x451⟩, ⟨6, 55, 26, 0x436⟩]

def CellRun.holds (r : CellRun) (row column : Nat) : Bool :=
  r.row = row && r.column ≤ column && column < r.column + r.count

def cell (row column : Nat) : Char :=
  match cells.find? (·.holds row column) with
  | some r => Char.ofNat (r.code + (column - r.column))
  | none => Text.replacement

def pair (lead trail : Nat) : Char :=
  let row := 2 * (lead - if lead ≤ 0x9f then 0x70 else 0xb0) - 0x21
  if trail < 0x9f then cell (row - 1) (trail - if trail < 0x7f then 0x40 else 0x41)
  else cell row (trail - 0x9f)

def isTrail (b : UInt8) : Bool := 0x40 ≤ b && b ≠ 0x7f

def decodeFrom : Text → List Char → List Char
  | [], done => done.reverse
  | b :: rest, done =>
    if b ≤ 0x80 then decodeFrom rest (Char.ofNat b.toNat :: done)
    else if 0xa1 ≤ b && b ≤ 0xdf then
      decodeFrom rest (Char.ofNat (0xff61 + (b.toNat - 0xa1)) :: done)
    else if b = 0xa0 || 0xfd ≤ b then decodeFrom rest (Text.replacement :: done)
    else match rest with
      | [] => (Text.replacement :: done).reverse
      | c :: rest' =>
        if isTrail c then
          decodeFrom rest' ((if 0xfd ≤ c then Text.replacement else pair b.toNat c.toNat) :: done)
        else decodeFrom (c :: rest') (Text.replacement :: done)

def decode (t : Text) : Text := Text.ofChars (decodeFrom t [])

end StackScript.ShiftJis

namespace StackScript

inductive SourceFault where
  | unreadable (path : Text) (fault : ReadFault)
  | encoding (name : Text)
deriving DecidableEq

def SourceFault.message : SourceFault → Text
  | .unreadable path fault => utf8 "cannot read " ++ path ++ utf8 ": " ++ fault.message path
  | .encoding name => (OptionFault.encoding name).message

/-- A file that cannot be read is reported before an encoding that is not known. -/
def readSource (t : FileTree) (path encoding : Text) : Except SourceFault Text :=
  match t.read path with
  | .error e => .error (.unreadable path e)
  | .ok data =>
    match Encoding.ofName? encoding with
    | none => .error (.encoding encoding)
    | some .utf8 => .ok data
    | some .shiftJis => .ok (ShiftJis.decode data)

end StackScript
