import StackScript.Number.Rounding
import StackScript.Text.Basic

/-! The text of a binary64 number: the fewest decimal digits that read back as the
same number, of these the nearest, written without an exponent.

A finite magnitude is `m * 2 ^ e`. The reals that round to it form an interval,
closed exactly when `m` is even. For one digit, two digits and so on the two
neighbours of the number on that decimal grid are tried. -/

namespace StackScript.Number

open Binary64

/-- A magnitude `significand * 2 ^ exponent`. `narrowBelow` holds where the next
number below is only half as far away as the next one above. -/
structure Dyadic where
  significand : Nat
  exponent : Int
  narrowBelow : Bool
deriving DecidableEq, Repr

def Dyadic.ofBits (bits : Nat) : Dyadic :=
  let field : Nat := bits / hiddenBit
  let fraction := bits % hiddenBit
  if field = 0 then ⟨fraction, leastExponent, false⟩
  else ⟨hiddenBit + fraction, leastExponent + ((field : Int) - 1), fraction = 0 && field ≠ 1⟩

/-- The interval of a dyadic over a common denominator: the number itself is
`value / scale` and what rounds to it lies from `low / scale` to `high / scale`. -/
structure Interval where
  low : Nat
  value : Nat
  high : Nat
  scale : Nat
  closed : Bool

def Dyadic.interval (d : Dyadic) : Interval :=
  let up := Nat.pow 2 d.exponent.toNat
  let down := Nat.pow 2 (-d.exponent).toNat
  let m := 4 * d.significand
  { low := (m - if d.narrowBelow then 1 else 2) * up
    value := m * up
    high := (m + 2) * up
    scale := 4 * down
    closed := d.significand % 2 = 0 }

structure Decimal where
  digits : Nat
  exponent : Int
deriving DecidableEq, Repr

def Interval.contains (i : Interval) (n : Nat) (exponent : Int) : Bool :=
  let x := n * Nat.pow 10 exponent.toNat * i.scale
  let unit := Nat.pow 10 (-exponent).toNat
  if i.closed then i.low * unit ≤ x && x ≤ i.high * unit
  else i.low * unit < x && x < i.high * unit

/-- The better neighbour on the grid of multiples of `10 ^ exponent`, if one lies in
the interval; of two equally near ones the even one. -/
def Interval.onGrid (i : Interval) (exponent : Int) : Option Decimal :=
  let num := i.value * Nat.pow 10 (-exponent).toNat
  let den := i.scale * Nat.pow 10 exponent.toNat
  let below := num / den
  let twice := 2 * (num % den)
  let preferAbove := den < twice || (twice = den && below % 2 = 1)
  let first := if preferAbove then below + 1 else below
  let second := if preferAbove then below else below + 1
  if i.contains first exponent then some ⟨first, exponent⟩
  else if i.contains second exponent then some ⟨second, exponent⟩
  else none

def leadingZeros : (fuel : Nat) → (num den start : Nat) → Nat
  | 0, _, _, k => k
  | fuel + 1, num, den, k => if den ≤ num then k else leadingZeros fuel (num * 10) den (k + 1)

def leadingExponent (num den : Nat) : Int :=
  if den ≤ num then ((Text.natural (num / den)).length : Int) - 1
  else -(leadingZeros 400 num den 0 : Int)

def Interval.search (i : Interval) : (digits : Nat) → (exponent : Int) → Decimal
  | 0, exponent => (i.onGrid exponent).getD ⟨0, 0⟩
  | digits + 1, exponent =>
    match i.onGrid exponent with
    | some d => d
    | none => i.search digits (exponent - 1)

def dropZeros : (fuel : Nat) → Decimal → Decimal
  | 0, d => d
  | fuel + 1, d =>
    if d.digits % 10 = 0 && d.exponent < 0 then dropZeros fuel ⟨d.digits / 10, d.exponent + 1⟩
    else d

/-- Seventeen digits always read back. -/
def Dyadic.shortest (d : Dyadic) : Decimal :=
  let i := d.interval
  dropZeros 20 (i.search 17 (leadingExponent i.value i.scale))

def Decimal.positional (d : Decimal) : Text :=
  let ds := Text.natural d.digits
  if 0 ≤ d.exponent then ds ++ List.replicate d.exponent.toNat 0x30
  else
    let places := (-d.exponent).toNat
    let padded := List.replicate (places + 1 - ds.length) 0x30 ++ ds
    padded.take (padded.length - places) ++ 0x2e :: padded.drop (padded.length - places)

def floatText (f : Float) : Text :=
  let bits := f.toBits.toNat
  let magnitude := bits % signBit
  let sign : Text := if signBit ≤ bits then [0x2d] else []
  if infinityBits < magnitude then utf8 "NaN"
  else if magnitude = infinityBits then sign ++ utf8 "inf"
  else if magnitude = 0 then sign ++ utf8 "0"
  else sign ++ (Dyadic.ofBits magnitude).shortest.positional

end StackScript.Number
