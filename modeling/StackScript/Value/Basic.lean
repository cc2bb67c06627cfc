import StackScript.Number.Shortest
import StackScript.Text.Quoted

/-! The dynamic values of scripts. Integers are 64-bit words, floats are binary64
and strings are texts. A name is a value only inside a constant pool, where it
stands for a global; `foreign` stands for anything outside the language. -/

namespace StackScript

inductive Kind where
  | none
  | bool
  | int
  | float
  | string
  | identifier
  | unknown
deriving DecidableEq, Repr

inductive Value where
  | none
  | bool (b : Bool)
  | int (n : Int64)
  | float (f : Float)
  | string (s : Text)
  | name (s : Text)
  | foreign
deriving DecidableEq, Inhabited

namespace Kind

def label : Kind → Text
  | .none => utf8 "none"
  | .bool => utf8 "bool"
  | .int => utf8 "int"
  | .float => utf8 "float"
  | .string => utf8 "string"
  | .identifier => utf8 "identifier"
  | .unknown => utf8 "unknown"

/-- Kinds by number, in the order in which they are listed. -/
def ofCode : Int → Kind
  | 0 => .none
  | 1 => .bool
  | 2 => .int
  | 3 => .float
  | 4 => .string
  | 5 => .identifier
  | _ => .unknown

end Kind

namespace Value

def kind : Value → Kind
  | .none => .none
  | .bool _ => .bool
  | .int _ => .int
  | .float _ => .float
  | .string _ => .string
  | .name _ => .identifier
  | .foreign => .unknown

/-- What a condition makes of a value: zero, the empty string and `none` are false. -/
def truthy : Value → Bool
  | .bool b => b
  | .int n => n ≠ 0
  | .float f => f != 0
  | .string s => s ≠ []
  | _ => false

def not (v : Value) : Value := .bool (!v.truthy)

def display : Value → Text
  | .none => utf8 "none"
  | .bool true => utf8 "true"
  | .bool false => utf8 "false"
  | .int n => Text.decimal n.toInt
  | .float f => Number.floatText f
  | .string s => s
  | .name s => s
  | .foreign => utf8 "<unknown>"

def listed : Value → Text
  | .string s => Text.quoted s
  | v => v.display

end Value

end StackScript
