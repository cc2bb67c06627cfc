import StackScript.Value.Arithmetic

/-! Equality and order of values. Truth values compare with integers as 0 and 1, a
float on either side compares as floats, and strings are ordered by their length.
`none` may be equated with anything and equals only itself. -/

namespace StackScript.Value

inductive Ranked where
  | ints (x y : Int)
  | floats (x y : Float)
deriving DecidableEq

def toInt? : Value → Option Int
  | .int n => some n.toInt
  | .bool b => some (if b then 1 else 0)
  | _ => Option.none

def ranked : Value → Value → Option Ranked
  | .string s, .string t => some (.ints s.length t.length)
  | .float x, b => b.toFloat?.map (.floats x)
  | a, .float y => a.toFloat?.map (.floats · y)
  | a, b =>
    match a.toInt?, b.toInt? with
    | some x, some y => some (.ints x y)
    | _, _ => Option.none

def equatable : Value → Value → Except OperatorFault Unit
  | .none, _ => .ok ()
  | _, .none => .ok ()
  | a, b => if (ranked a b).isSome then .ok () else .error (.mismatch .equate a.kind b.kind)

def comparable (a b : Value) : Except OperatorFault Unit :=
  if (ranked a b).isSome then .ok () else .error (.mismatch .compare a.kind b.kind)

/-- Whether the ranks stand in a relation; values without ranks stand in none. -/
def related (ints : Int → Int → Bool) (floats : Float → Float → Bool) (a b : Value) : Bool :=
  match ranked a b with
  | some (.ints x y) => ints x y
  | some (.floats x y) => floats x y
  | Option.none => false

def equal : Value → Value → Bool
  | .none, .none => true
  | .string s, .string t => s = t
  | a, b => related (fun x y => x = y) (· == ·) a b

def less (a b : Value) : Bool := related (fun x y => x < y) (fun x y => x < y) a b

def lessEqual (a b : Value) : Bool := related (fun x y => x ≤ y) (fun x y => x ≤ y) a b

def greater (a b : Value) : Bool := related (fun x y => y < x) (fun x y => y < x) a b

def greaterEqual (a b : Value) : Bool := related (fun x y => y ≤ x) (fun x y => y ≤ x) a b

end StackScript.Value
