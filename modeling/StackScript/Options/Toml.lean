import StackScript.Number.Reading
import StackScript.Options.Field

/-! Options in TOML: lines of a key, an equals sign and a value. Values are truth
values, integers, floats and strings on one line. A key is matched without regard to
case unless it matches exactly, and unknown keys are ignored. -/

namespace StackScript.Toml

open OptionLine

def isBareKey (b : UInt8) : Bool :=
  let c := Text.lowerAscii b
  (0x61 ≤ c && c ≤ 0x7a) || Text.isDigit b || b = 0x5f || b = 0x2d

def escapeByte : UInt8 → Option UInt8
  | 0x62 => some 0x08
  | 0x74 => some 0x09
  | 0x6e => some 0x0a
  | 0x66 => some 0x0c
  | 0x72 => some 0x0d
  | 0x65 => some 0x1b
  | 0x22 => some 0x22
  | 0x5c => some 0x5c
  | _ => none

def escapeWidth : UInt8 → Option Nat
  | 0x78 => some 2
  | 0x75 => some 4
  | 0x55 => some 8
  | _ => none

def basicFrom : (fuel : Nat) → Text → Text → Option (Text × Text)
  | 0, _, _ => none
  | _ + 1, [], _ => none
  | fuel + 1, b :: rest, done =>
    if b = Text.doubleQuote then some (done.reverse, rest)
    else if b = Text.backslash then
      match rest with
      | [] => none
      | e :: rest =>
        match escapeByte e with
        | some v => basicFrom fuel rest (v :: done)
        | none =>
          match (escapeWidth e).bind (hexEscape? · rest) with
          | some (t, rest) => basicFrom fuel rest (t.reverse ++ done)
          | none => none
    else if isControl b then none
    else basicFrom fuel rest (b :: done)

def literalFrom : Text → Text → Option (Text × Text)
  | [], _ => none
  | b :: rest, done =>
    if b = Text.singleQuote then some (done.reverse, rest)
    else if isControl b then none
    else literalFrom rest (b :: done)

def quoted? : Text → Option (Text × Text)
  | 0x22 :: rest => basicFrom (rest.length + 1) rest []
  | 0x27 :: rest => literalFrom rest []
  | _ => none

/-- Digits with single separators between them, separators taken out. -/
def separated? (digit : UInt8 → Bool) : Text → (afterDigit : Bool) → Text → Option Text
  | [], afterDigit, done => if afterDigit then some done.reverse else none
  | b :: rest, afterDigit, done =>
    if digit b then separated? digit rest true (b :: done)
    else if b = Number.underscore && afterDigit then separated? digit rest false done
    else none

def isHexDigit (b : UInt8) : Bool := (Number.Radix.hexadecimal.digit? b).isSome

def valueOf (base : Nat) (t : Text) : Nat :=
  t.foldl (fun n b => base * n + ((Number.Radix.hexadecimal.digit? b).getD 0)) 0

def leadingZero : Text → Bool
  | 0x30 :: _ :: _ => true
  | _ => false

def integer? (t : Text) : Option Int :=
  match t with
  | 0x30 :: 0x78 :: rest => (separated? isHexDigit rest false []).map (valueOf 16 ·)
  | 0x30 :: 0x6f :: rest =>
    (separated? (fun b => 0x30 ≤ b && b ≤ 0x37) rest false []).map (valueOf 8 ·)
  | 0x30 :: 0x62 :: rest =>
    (separated? (fun b => b = 0x30 || b = 0x31) rest false []).map (valueOf 2 ·)
  | _ =>
    let (negative, body) := Number.splitSign t
    (separated? Text.isDigit body false []).bind fun ds =>
      if leadingZero ds then none
      else some (if negative then -(valueOf 10 ds : Int) else valueOf 10 ds)

def float? (t : Text) : Option Float :=
  let (_, body) := Number.splitSign t
  let whole := body.takeWhile fun b => Text.isDigit b || b = Number.underscore
  let after := body.drop whole.length
  if body = utf8 "inf" || body = utf8 "nan" then Number.readFloat body
  else if leadingZero whole then none
  else match whole, after with
    | _ :: _, 0x2e :: d :: _ => if Text.isDigit d then Number.readFloat t else none
    | _ :: _, 0x65 :: _ => Number.readFloat t
    | _ :: _, 0x45 :: _ => Number.readFloat t
    | _, _ => none

def word? (t : Text) : Option Setting :=
  if t = utf8 "true" then some (.bool true)
  else if t = utf8 "false" then some (.bool false)
  else match integer? t with
    | some n => if Number.fitsInt64 n then some (.int n) else none
    | none => (float? t).map .float

def value? (t : Text) : Option (Setting × Text) :=
  match t with
  | 0x22 :: _ => (quoted? t).map fun (s, rest) => (.text s, rest)
  | 0x27 :: _ => (quoted? t).map fun (s, rest) => (.text s, rest)
  | _ =>
    let w := t.takeWhile fun b => !isBlank b && b ≠ 0x23
    (word? w).map (·, t.drop w.length)

def key? (t : Text) : Option (Text × Text) :=
  match t with
  | 0x22 :: _ => quoted? t
  | 0x27 :: _ => quoted? t
  | _ =>
    let k := t.takeWhile isBareKey
    if k = [] then none else some (k, t.drop k.length)

def endsLine (t : Text) : Bool :=
  match skipBlanks t with
  | [] => true
  | 0x23 :: rest => rest.all fun b => !isControl b
  | _ => false

def entry? (line : Text) : Option (Option (Text × Setting)) :=
  if endsLine line then some none
  else do
    let (key, rest) ← key? (skipBlanks line)
    match skipBlanks rest with
    | 0x3d :: rest =>
      let (value, rest) ← value? (skipBlanks rest)
      if endsLine rest then some (some (key, value)) else none
    | _ => none

def entries? : List Text → Option (List (Text × Setting))
  | [] => some []
  | line :: rest =>
    match entry? line with
    | none => none
    | some none => entries? rest
    | some (some e) => (entries? rest).map (e :: ·)

/-- Case folding of the letters that occur in keys; two letters beyond ASCII fold
onto ASCII ones. -/
def folded (key : Text) : Text :=
  Text.ofChars ((Text.runes key).map fun r =>
    if r.char.toNat = 0x17f then 's' else if r.char.toNat = 0x212a then 'k' else r.char.toLower)

def field? (key : Text) : Option Field :=
  match Field.hyphenated.find? (utf8 ·.1 = key) with
  | some (_, f) => some f
  | none => (Field.hyphenated.find? (utf8 ·.1 = folded key)).map (·.2)

def assign? (o : Options) : List (Text × Setting) → Option Options
  | [] => some o
  | (key, value) :: rest =>
    match field? key with
    | none => assign? o rest
    | some f => (o.set? f value).bind (assign? · rest)

/-- Lines without their ends: a line feed, or a carriage return and a line feed. A
carriage return before anything else stays in its line. -/
def linesOf : List Text → List Text
  | [] => []
  | [last] => [last]
  | l :: rest => (if l.getLast? = some 0x0d then l.dropLast else l) :: linesOf rest

def options? (o : Options) (t : Text) : Option Options :=
  let t := withoutMark t
  if !Text.isWellFormed t then none
  else (entries? (linesOf t.splitLines)).bind fun es =>
    if hasRepeat (es.map (·.1)) then none else assign? o es

end StackScript.Toml
