/-! The layout of a binary64 number in its 64 bits, a sign, eleven bits of exponent and
fifty-two bits of fraction; and rounding a ratio of naturals to the nearest one, a tie to
the even significand. A magnitude that would round to 2^1024 or more has no result. -/

namespace StackScript.Number

namespace Binary64

def signBit : Nat := 0x8000000000000000

def hiddenBit : Nat := 0x10000000000000

def leastExponent : Int := -1074

/-- The magnitude of infinity; what lies above it is not a number. -/
def infinityBits : Nat := 0x7ff0000000000000

end Binary64

open Binary64

/-- `num / den` rounded to the nearest natural, a half to the even one. -/
def roundDiv (num den : Nat) : Nat :=
  let q := num / den
  let twice := 2 * (num % den)
  if den < twice || (twice = den && q % 2 = 1) then q + 1 else q

/-- The binary exponent at which `num / den` has a significand of 53 bits, or the
least exponent there is. -/
def binaryExponent (num den : Nat) : Int :=
  let guess : Int := (num.log2 : Int) - den.log2 - 52
  let fits := if 0 ≤ guess then den * (hiddenBit * Nat.pow 2 guess.toNat) ≤ num
    else den * hiddenBit ≤ num * Nat.pow 2 (-guess).toNat
  max leastExponent (if fits then guess else guess - 1)

def nearestBits (num den : Nat) : Option Nat :=
  if num = 0 then some 0
  else
    let e := binaryExponent num den
    let m := if 0 ≤ e then roundDiv num (den * Nat.pow 2 e.toNat)
      else roundDiv (num * Nat.pow 2 (-e).toNat) den
    -- a significand of 2^53 carries into the exponent field by itself
    let bits := if m < hiddenBit then m else (e - leastExponent).toNat * hiddenBit + m
    if bits < infinityBits then some bits else none

def nearest (negative : Bool) (num den : Nat) : Option Float :=
  (nearestBits num den).map fun bits =>
    Float.ofBits (UInt64.ofNat (if negative then bits + signBit else bits))

end StackScript.Number
