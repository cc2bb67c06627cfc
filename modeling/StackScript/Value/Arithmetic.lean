import StackScript.Value.Basic

/-! Arithmetic on values, with what an operator can refuse and the words for it. Two
integers give an integer that wraps to 64 bits, and division of integers rounds toward
zero; a float on either side makes both floats. Strings are joined by addition and
repeated by multiplication with a count. -/

namespace StackScript

inductive Verb where
  | add
  | subtract
  | multiply
  | divide
  | equate
  | compare
deriving DecidableEq, Repr

def Verb.label : Verb → Text
  | .add => utf8 "add"
  | .subtract => utf8 "subtract"
  | .multiply => utf8 "multiply"
  | .divide => utf8 "divide"
  | .equate => utf8 "equate"
  | .compare => utf8 "compare"

inductive OperatorFault where
  | mismatch (verb : Verb) (left right : Kind)
  | notNegatable (operand : Kind)
  | divisionByZero
  | negativeRepeat (count : Int64)
  | repeatTooLong
deriving DecidableEq

/-- The longest string that repetition makes, in bytes. -/
def maxRepeatLength : Nat := 0x40000000

def OperatorFault.message : OperatorFault → Text
  | .mismatch verb left right =>
    utf8 "cannot " ++ verb.label ++ utf8 " types " ++ left.label ++ utf8 " and " ++ right.label
  | .notNegatable operand => utf8 "cannot negate type " ++ operand.label
  | .divisionByZero => utf8 "division by zero"
  | .negativeRepeat count =>
    utf8 "cannot repeat string a negative number of times (" ++ Text.decimal count.toInt ++ utf8 ")"
  | .repeatTooLong => utf8 "string repetition exceeds " ++ Text.natural maxRepeatLength ++ utf8 " bytes"

namespace Value

def toFloat? : Value → Option Float
  | .int n => some n.toFloat
  | .float f => some f
  | _ => Option.none

def numeric (verb : Verb) (ints : Int64 → Int64 → Except OperatorFault Int64)
    (floats : Float → Float → Float) : Value → Value → Except OperatorFault Value
  | .int x, .int y => (ints x y).map .int
  | a, b =>
    match a.toFloat?, b.toFloat? with
    | some x, some y => .ok (.float (floats x y))
    | _, _ => .error (.mismatch verb a.kind b.kind)

def add : Value → Value → Except OperatorFault Value
  | .string s, .string t => .ok (.string (s ++ t))
  | a, b => numeric .add (fun x y => .ok (x + y)) (· + ·) a b

def subtract (a b : Value) : Except OperatorFault Value :=
  numeric .subtract (fun x y => .ok (x - y)) (· - ·) a b

def repeated (s : Text) (n : Nat) : Text :=
  if s = [] then [] else Nat.repeat (s ++ ·) n []

/-- The count is checked before anything is built, so that a length past the limit
is refused however large it would be. -/
def repeatString (s : Text) (n : Int64) : Except OperatorFault Value :=
  if n < 0 then .error (.negativeRepeat n)
  else if 0 < n && maxRepeatLength / n.toInt.toNat < s.length then .error .repeatTooLong
  else .ok (.string (repeated s n.toInt.toNat))

def multiply : Value → Value → Except OperatorFault Value
  | .string s, .int n => repeatString s n
  | a, b => numeric .multiply (fun x y => .ok (x * y)) (· * ·) a b

def divide (a b : Value) : Except OperatorFault Value :=
  numeric .divide (fun x y => if y = 0 then .error .divisionByZero else .ok (x / y)) (· / ·) a b

def negate : Value → Except OperatorFault Value
  | .int n => .ok (.int (-n))
  | .float f => .ok (.float (-f))
  | v => .error (.notNegatable v.kind)

end Value

end StackScript
