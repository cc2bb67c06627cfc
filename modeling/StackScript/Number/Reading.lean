import StackScript.Number.Rounding
import StackScript.Text.Basic

/-! Number literals read from text: signed 64-bit integers in decimal, and binary64
numbers in decimal or hexadecimal notation, with the words for infinity and for
not-a-number. Text that is no literal, or whose number is out of range, has no
reading; a number too small for a nonzero result reads as zero. -/

namespace StackScript.Number

open Text

def readNatural (t : Text) : Option Nat :=
  if t ≠ [] && t.all isDigit then some (t.foldl (fun n b => 10 * n + (b.toNat - 0x30)) 0) else none

def splitSign : Text → Bool × Text
  | 0x2d :: rest => (true, rest)
  | 0x2b :: rest => (false, rest)
  | t => (false, t)

def readInteger (t : Text) : Option Int :=
  let (negative, body) := splitSign t
  (readNatural body).map fun n => if negative then -(n : Int) else n

def fitsInt64 (n : Int) : Bool := -9223372036854775808 ≤ n && n ≤ 9223372036854775807

def readInt64 (t : Text) : Option Int64 :=
  (readInteger t).bind fun n => if fitsInt64 n then some (Int64.ofInt n) else none

inductive Radix where
  | decimal
  | hexadecimal
deriving DecidableEq

def Radix.base : Radix → Nat
  | .decimal => 10
  | .hexadecimal => 16

/-- Powers of this number scale the significand by one exponent step. -/
def Radix.exponentBase : Radix → Nat
  | .decimal => 10
  | .hexadecimal => 2

def Radix.exponentMark : Radix → UInt8
  | .decimal => 0x65
  | .hexadecimal => 0x70

def Radix.digit? (n : Radix) (b : UInt8) : Option Nat :=
  if isDigit b then some (b.toNat - 0x30)
  else
    let c := lowerAscii b
    if n = .hexadecimal && 0x61 ≤ c && c ≤ 0x66 then some (c.toNat - 0x57) else none

structure Significand where
  value : Nat := 0
  places : Nat := 0
  seenPoint : Bool := false
  seenDigit : Bool := false

def underscore : UInt8 := 0x5f

def readSignificand (n : Radix) : Text → Significand → Significand × Text
  | [], s => (s, [])
  | b :: rest, s =>
    if b = underscore then readSignificand n rest s
    else if b = 0x2e && !s.seenPoint then readSignificand n rest { s with seenPoint := true }
    else match n.digit? b with
      | some d => readSignificand n rest
          { s with value := s.value * n.base + d, seenDigit := true,
                   places := if s.seenPoint then s.places + 1 else s.places }
      | none => (s, b :: rest)

/-- Exponents are counted exactly below ten thousand; beyond, the leading digits
suffice to leave the range. -/
def readExponentDigits : Text → Nat → Nat × Text
  | [], e => (e, [])
  | b :: rest, e =>
    if b = underscore then readExponentDigits rest e
    else if isDigit b then readExponentDigits rest (if e < 10000 then 10 * e + (b.toNat - 0x30) else e)
    else (e, b :: rest)

def readExponent (t : Text) : Option (Int × Text) :=
  let (negative, body) := splitSign t
  match body with
  | b :: _ =>
    if isDigit b then
      let (e, rest) := readExponentDigits body 0
      some (if negative then -(e : Int) else e, rest)
    else none
  | [] => none

/-- Separators stand only between digits, where the prefix of a hexadecimal literal
counts as a digit. -/
def separatorsOk (n : Radix) : Text → (afterDigit afterSeparator : Bool) → Bool
  | [], _, afterSeparator => !afterSeparator
  | b :: rest, afterDigit, afterSeparator =>
    if (n.digit? b).isSome then separatorsOk n rest true false
    else if b = underscore then afterDigit && separatorsOk n rest false true
    else !afterSeparator && separatorsOk n rest false false

def scaled (negative : Bool) (n : Radix) (s : Significand) (exponent : Int) : Option Float :=
  let den := n.base.pow s.places
  if s.value = 0 then nearest negative 0 1
  else if 0 ≤ exponent then nearest negative (s.value * n.exponentBase.pow exponent.toNat) den
  else nearest negative s.value (den * n.exponentBase.pow (-exponent).toNat)

def readMagnitude (negative : Bool) (n : Radix) (t : Text) : Option Float :=
  let (s, rest) := readSignificand n t {}
  if !s.seenDigit || !separatorsOk n t (n = .hexadecimal) false then none
  else match rest with
    | [] => if n = .hexadecimal then none else scaled negative n s 0
    | b :: rest =>
      if lowerAscii b = n.exponentMark then
        match readExponent rest with
        | some (e, []) => scaled negative n s e
        | _ => none
      else none

def infinity (negative : Bool) : Float := if negative then -(1.0 / 0.0) else 1.0 / 0.0

def readFloat (t : Text) : Option Float :=
  let (negative, body) := splitSign t
  let word := body.map lowerAscii
  if word = utf8 "inf" || word = utf8 "infinity" then some (infinity negative)
  else if t.map lowerAscii = utf8 "nan" then some (0.0 / 0.0)
  else match body with
    | 0x30 :: x :: c :: rest =>
      if lowerAscii x = 0x78 then readMagnitude negative .hexadecimal (c :: rest)
      else readMagnitude negative .decimal body
    | _ => readMagnitude negative .decimal body

end StackScript.Number
