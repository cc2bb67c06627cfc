import StackScript.Number.Reading

/-! Integers whose base is told by how they begin: `0x`, `0o` and `0b`, or a zero
alone for octal, and decimal otherwise. Underscores may separate digits, where what
tells the base counts as a digit. Digits are read from the left, so a number that has
left the range is out of range whatever follows. -/

namespace StackScript.Number

inductive IntegerFault where
  | malformed
  | outOfRange
deriving DecidableEq, Repr

/-- The base and the digits. A prefix needs something behind it. -/
def splitBase : Text → Nat × Text
  | 0x30 :: mark :: b :: rest =>
    let c := Text.lowerAscii mark
    if c = 0x78 then (16, b :: rest)
    else if c = 0x6f then (8, b :: rest)
    else if c = 0x62 then (2, b :: rest)
    else (8, mark :: b :: rest)
  | 0x30 :: rest => (8, rest)
  | t => (10, t)

/-- The number that digits and separators add to `n`, up to `bound`. -/
def accumulate (base bound : Nat) : Text → Nat → Except IntegerFault Nat
  | [], n => .ok n
  | b :: rest, n =>
    if b = underscore then accumulate base bound rest n
    else match Radix.hexadecimal.digit? b with
      | some d =>
        if d < base then
          if n * base + d ≤ bound then accumulate base bound rest (n * base + d)
          else .error .outOfRange
        else .error .malformed
      | none => .error .malformed

def maxUnsigned : Nat := 18446744073709551615

def readPrefixedNatural (t : Text) : Except IntegerFault Nat :=
  if t = [] then .error .malformed
  else
    let (base, digits) := splitBase t
    match accumulate base maxUnsigned digits 0 with
    | .error e => .error e
    | .ok n =>
      if separatorsOk .hexadecimal digits (digits.length < t.length) false then .ok n
      else .error .malformed

def readPrefixedInteger (t : Text) : Except IntegerFault Int :=
  let (negative, body) := splitSign t
  match readPrefixedNatural body with
  | .error e => .error e
  | .ok n =>
    let value : Int := if negative then -(n : Int) else n
    if fitsInt64 value then .ok value else .error .outOfRange

end StackScript.Number
