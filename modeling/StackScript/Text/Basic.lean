/-! Text is a sequence of bytes. Sources, names, string values and messages are
all texts, and nothing requires one to be well-formed UTF-8. Numbers are written
in decimal and in hexadecimal here, and fields are padded to a width. -/

namespace StackScript

abbrev Text := List UInt8

def utf8 (s : String) : Text := s.toUTF8.data.toList

namespace Text

def newline : UInt8 := 0x0a

def line (t : Text) : Text := t ++ [newline]

def spaces (n : Nat) : Text := List.replicate n 0x20

def isDigit (b : UInt8) : Bool := 0x30 ≤ b && b ≤ 0x39

def digit (n : Nat) : UInt8 :=
  if n < 10 then UInt8.ofNat (0x30 + n) else UInt8.ofNat (0x57 + n)

def natural (n : Nat) : Text := (Nat.toDigits 10 n).map fun c => UInt8.ofNat c.toNat

def decimal : Int → Text
  | .ofNat n => natural n
  | .negSucc n => 0x2d :: natural (n + 1)

def hex : (width : Nat) → Nat → Text
  | 0, _ => []
  | width + 1, n => hex width (n / 16) ++ [digit (n % 16)]

@[simp] theorem length_hex (width n : Nat) : (hex width n).length = width := by
  induction width generalizing n with
  | zero => rfl
  | succ width ih => simp [hex, ih]

def upperAscii (b : UInt8) : UInt8 := if 0x61 ≤ b && b ≤ 0x7a then b - 0x20 else b

def lowerAscii (b : UInt8) : UInt8 := if 0x41 ≤ b && b ≤ 0x5a then b + 0x20 else b

def zeroPadded (width : Nat) : Int → Text
  | .ofNat n => List.replicate (width - (natural n).length) 0x30 ++ natural n
  | .negSucc n =>
    0x2d :: (List.replicate (width - 1 - (natural (n + 1)).length) 0x30 ++ natural (n + 1))

/-- The pieces between line feeds; a text without one is a single piece. -/
def splitLines (t : Text) : List Text :=
  let (last, done) := t.foldl (fun (cur, done) b =>
    if b = newline then ([], cur.reverse :: done) else (b :: cur, done)) ([], [])
  (last.reverse :: done).reverse

def dropTrailing (b : UInt8) (t : Text) : Text := (t.reverse.dropWhile (· = b)).reverse

end Text

end StackScript
