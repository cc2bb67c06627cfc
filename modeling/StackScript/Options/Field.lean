import StackScript.Options.Basic

/-! The options that a file can set, and setting them. -/

namespace StackScript

inductive Field where
  | debug
  | printTokens
  | file
  | color
  | verbosity
  | maxStack
  | instructionLimit
  | encoding
deriving DecidableEq, Repr

inductive Setting where
  | bool (b : Bool)
  | int (n : Int)
  | float (f : Float)
  | text (t : Text)
deriving DecidableEq

inductive FieldType where
  | bool
  | int
  | text
deriving DecidableEq

namespace Field

def type : Field → FieldType
  | .debug | .printTokens => .bool
  | .verbosity | .maxStack | .instructionLimit => .int
  | .file | .color | .encoding => .text

def hyphenated : List (String × Field) :=
  [("debug", .debug), ("print-tokens", .printTokens), ("file", .file), ("color", .color),
   ("verbosity", .verbosity), ("max-stack", .maxStack), ("instruction-limit", .instructionLimit),
   ("encoding", .encoding)]

def underscored : List (String × Field) :=
  [("debug", .debug), ("print_tokens", .printTokens), ("file", .file), ("color", .color),
   ("verbosity", .verbosity), ("max_stack", .maxStack), ("instruction_limit", .instructionLimit),
   ("encoding", .encoding)]

end Field

def Options.set? (o : Options) : Field → Setting → Option Options
  | .debug, .bool b => some { o with debug := b }
  | .printTokens, .bool b => some { o with printTokens := b }
  | .file, .text t => some { o with file := t }
  | .color, .text t => some { o with color := t }
  | .verbosity, .int n => some { o with verbosity := n }
  | .maxStack, .int n => some { o with maxStack := n }
  | .instructionLimit, .int n => some { o with instructionLimit := n }
  | .encoding, .text t => some { o with encoding := t }
  | _, _ => none

def hasRepeat : List Text → Bool
  | [] => false
  | k :: ks => ks.contains k || hasRepeat ks

namespace OptionLine

def isBlank (b : UInt8) : Bool := b = 0x20 || b = 0x09

def skipBlanks (t : Text) : Text := t.dropWhile isBlank

def withoutMark : Text → Text
  | 0xef :: 0xbb :: 0xbf :: rest => rest
  | t => t

def isControl (b : UInt8) : Bool := (b < 0x20 && b ≠ 0x09) || b = 0x7f

def hexValue? (t : Text) : Option Nat :=
  t.foldl (fun n b => n.bind fun n =>
    let c := Text.lowerAscii b
    if Text.isDigit b then some (16 * n + (b.toNat - 0x30))
    else if 0x61 ≤ c && c ≤ 0x66 then some (16 * n + (c.toNat - 0x57))
    else none) (some 0)

def hexEscape? (width : Nat) (t : Text) : Option (Text × Text) :=
  if t.length < width then none
  else (hexValue? (t.take width)).bind fun n =>
    if n.isValidChar then some (Text.ofChar (Char.ofNat n), t.drop width) else none

end OptionLine

end StackScript
