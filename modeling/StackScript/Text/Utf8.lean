import StackScript.Text.Basic

/-! Texts as sequences of characters. A byte that does not begin a well-formed
UTF-8 sequence stands for U+FFFD and is taken alone, so every text has a
decomposition and every step takes at least one byte. Surrogates, overlong forms
and code points above U+10FFFF are ill-formed. -/

namespace StackScript.Text

structure Rune where
  char : Char
  size : Nat
deriving DecidableEq, Repr

def replacement : Char := Char.ofNat 0xfffd

namespace Rune

def invalid : Rune := ⟨replacement, 1⟩

/-- U+FFFD itself takes three bytes. -/
def isInvalid (r : Rune) : Bool := r.size = 1 && r.char = replacement

end Rune

def isTail (b : UInt8) : Bool := 0x80 ≤ b && b ≤ 0xbf

private def low6 (b : UInt8) : Nat := b.toNat % 64

/-- `code` if the bytes that complete a sequence are right, and else a single
invalid byte. -/
def Rune.ofCode (wellFormed : Bool) (code size : Nat) : Rune :=
  if wellFormed then ⟨Char.ofNat code, size⟩ else .invalid

def runeAt (b : UInt8) (rest : Text) : Rune :=
  if b < 0x80 then ⟨Char.ofNat b.toNat, 1⟩
  else if b < 0xc2 || 0xf4 < b then .invalid
  else match rest with
    | [] => .invalid
    | c :: rest =>
      if b < 0xe0 then .ofCode (isTail c) (b.toNat % 32 * 64 + low6 c) 2
      else match rest with
        | [] => .invalid
        | d :: rest =>
          if b < 0xf0 then
            .ofCode (isTail c && isTail d && (b != 0xe0 || 0xa0 ≤ c) && (b != 0xed || c ≤ 0x9f))
              ((b.toNat % 16 * 64 + low6 c) * 64 + low6 d) 3
          else match rest with
            | [] => .invalid
            | e :: _ =>
              .ofCode (isTail c && isTail d && isTail e && (b != 0xf0 || 0x90 ≤ c) &&
                  (b != 0xf4 || c ≤ 0x8f))
                (((b.toNat % 8 * 64 + low6 c) * 64 + low6 d) * 64 + low6 e) 4

theorem Rune.ofCode_size_pos (wellFormed : Bool) (code size : Nat) (h : 0 < size) :
    0 < (Rune.ofCode wellFormed code size).size := by
  unfold Rune.ofCode
  split
  · exact h
  · exact Nat.one_pos

theorem runeAt_size_pos (b : UInt8) (rest : Text) : 0 < (runeAt b rest).size := by
  unfold runeAt
  repeat' split
  all_goals first | exact Nat.one_pos | exact Rune.ofCode_size_pos _ _ _ (by decide)

def runesFrom : (skip : Nat) → Text → List Rune → List Rune
  | _, [], done => done.reverse
  | 0, b :: rest, done =>
    let r := runeAt b rest
    runesFrom (r.size - 1) rest (r :: done)
  | skip + 1, _ :: rest, done => runesFrom skip rest done

def runes (t : Text) : List Rune := runesFrom 0 t []

def runeCount (t : Text) : Nat := (runes t).length

def isWellFormed (t : Text) : Bool := (runes t).all fun r => !r.isInvalid

def ofChar (c : Char) : Text := String.utf8EncodeChar c

def ofChars (cs : List Char) : Text := cs.flatMap ofChar

/-- Widths count characters, not bytes. -/
def padRight (width : Nat) (t : Text) : Text := t ++ spaces (width - runeCount t)

def padLeft (width : Nat) (t : Text) : Text := spaces (width - runeCount t) ++ t

def isBlank (c : Char) : Bool :=
  let n := c.toNat
  (0x09 ≤ n && n ≤ 0x0d) || n = 0x20 || n = 0x85 || n = 0xa0 || n = 0x1680 ||
    (0x2000 ≤ n && n ≤ 0x200a) || n = 0x2028 || n = 0x2029 || n = 0x202f || n = 0x205f ||
    n = 0x3000

private def blankBytes (rs : List Rune) : Nat :=
  (rs.takeWhile fun r => isBlank r.char).foldl (fun n r => n + r.size) 0

def trim (t : Text) : Text :=
  let rs := runes t
  let kept := t.drop (blankBytes rs)
  if rs.all fun r => isBlank r.char then [] else kept.take (kept.length - blankBytes rs.reverse)

end StackScript.Text
