import StackScript.Number.Prefixed
import StackScript.Options.Yaml.Node

/-! Options in YAML: a mapping of names to scalars. A plain scalar has the type that it
looks like; a quoted one is a string. Strings take any scalar, integers take floats
rounded toward zero, and truth values also take the words for yes and no. A key without
a value leaves its option as it is. -/

namespace StackScript.Yaml

def nullWords : List Text := [[], utf8 "~", utf8 "null", utf8 "Null", utf8 "NULL"]

def trueWords : List Text := [utf8 "true", utf8 "True", utf8 "TRUE"]

def falseWords : List Text := [utf8 "false", utf8 "False", utf8 "FALSE"]

def yesWords : List Text :=
  [utf8 "y", utf8 "Y", utf8 "yes", utf8 "Yes", utf8 "YES", utf8 "on", utf8 "On", utf8 "ON"]

def noWords : List Text :=
  [utf8 "n", utf8 "N", utf8 "no", utf8 "No", utf8 "NO", utf8 "off", utf8 "Off", utf8 "OFF"]

def floatShaped (t : Text) : Bool :=
  let (_, body) := Number.splitSign t
  let whole := body.takeWhile Text.isDigit
  let rest := body.drop whole.length
  let (places, rest) := match rest with
    | 0x2e :: rest =>
      let places := rest.takeWhile Text.isDigit
      (places, rest.drop places.length)
    | rest => ([], rest)
  (whole ≠ [] || places ≠ []) &&
    match rest with
    | [] => true
    | e :: rest =>
      let (_, ds) := Number.splitSign rest
      Text.lowerAscii e = 0x65 && ds ≠ [] && ds.all Text.isDigit

def infinityWords : List Text := [utf8 ".inf", utf8 ".Inf", utf8 ".INF"]

def pointFloat? (t : Text) : Option Float :=
  if infinityWords.contains t then some (Number.infinity false) else Number.readFloat t

def float? (t : Text) : Option Float :=
  let (negative, body) := Number.splitSign t
  if infinityWords.contains body then some (Number.infinity negative)
  else if floatShaped t then Number.readFloat t
  else none

/-- Toward zero. The word that stands for what lies outside the words is the least
one; far above them there is none. -/
def truncated (f : Float) : Option Int :=
  if f < 9223372036854775808.0 then some f.toInt64.toInt
  else if f == 9223372036854775808.0 then some Int64.minValue.toInt
  else none

/-- An integer, or else a float, that begins with a sign or a digit. Separators are
ignored wherever they stand, and what fits only an unsigned word is refused. -/
def signedNumber? (t : Text) : Option Int :=
  let plain := t.filter (· ≠ Number.underscore)
  match Number.readPrefixedInteger plain with
  | .ok n => some n
  | .error _ =>
    match Number.readPrefixedNatural plain with
    | .ok _ => none
    | .error _ => (float? plain).bind truncated

def intOf? (t : Text) : Option Int :=
  match t with
  | [] => none
  | b :: _ =>
    if b = 0x2e then (pointFloat? t).bind truncated
    else if Text.isDigit b || b = 0x2b || b = 0x2d then signedNumber? t
    else none

def setting? : FieldType → Node → Option (Option Setting)
  | _, .sequence _ => none
  | _, .mapping _ => none
  | .text, .quoted t => some (some (.text t))
  | .text, .plain t => if nullWords.contains t then some none else some (some (.text t))
  | .bool, .quoted t =>
    if yesWords.contains t then some (some (.bool true))
    else if noWords.contains t then some (some (.bool false))
    else none
  | .bool, .plain t =>
    if nullWords.contains t then some none
    else if trueWords.contains t || yesWords.contains t then some (some (.bool true))
    else if falseWords.contains t || noWords.contains t then some (some (.bool false))
    else none
  | .int, .quoted _ => none
  | .int, .plain t =>
    if nullWords.contains t then some none else (intOf? t).map fun n => some (.int n)

def keyText? : Node → Option Text
  | .plain t => some t
  | .quoted t => some t
  | .sequence _ => none
  | .mapping _ => none

def isMergeKey : Node → Bool
  | .plain t => t = utf8 "<<"
  | _ => false

def isNullKey : Node → Bool
  | .plain t => nullWords.contains t
  | _ => false

/-- The entries of a mapping and behind them those that are merged into it, each mapping
without a repeated key. Entries whose key is null have no name. The fuel bounds how deep
mappings are merged into merged ones. -/
def namedEntries? : (fuel : Nat) → List (Node × Node) → Option (List (Text × Node))
  | 0, _ => none
  | fuel + 1, es => do
    let keys ← es.mapM fun e => keyText? e.1
    if hasRepeat keys then none
    else
      let own := (es.filter fun e => !isNullKey e.1 && !isMergeKey e.1).filterMap fun (k, v) =>
        (keyText? k).map (·, v)
      match es.find? fun e => isMergeKey e.1 with
      | none => some own
      | some (_, .mapping inner) => (namedEntries? fuel inner).map (own ++ ·)
      | some (_, .sequence nodes) =>
        (nodes.mapM fun
          | Node.mapping inner => namedEntries? fuel inner
          | _ => none).map fun merged => own ++ List.flatten merged
      | some _ => none

def field? (key : Text) : Option Field := (Field.underscored.find? (utf8 ·.1 = key)).map (·.2)

/-- Sets the named fields; of entries with one name the first counts. -/
def assign? (o : Options) (seen : List Text) : List (Text × Node) → Option Options
  | [] => some o
  | (key, value) :: rest =>
    if seen.contains key then assign? o seen rest
    else match field? key with
      | none => assign? o (key :: seen) rest
      | some f =>
        match setting? f.type value with
        | none => none
        | some none => assign? o (key :: seen) rest
        | some (some s) => (o.set? f s).bind (assign? · (key :: seen) rest)

def isAllowed (c : Char) : Bool :=
  let n := c.toNat
  n = 0x09 || n = 0x0a || n = 0x0d || (0x20 ≤ n && n ≤ 0x7e) || n = 0x85 ||
    (0xa0 ≤ n && n ≤ 0xfffd) || 0x10000 ≤ n

def options? (o : Options) (t : Text) : Option Options :=
  let runes := Text.runes (OptionLine.withoutMark t)
  if runes.any fun r => r.isInvalid || !isAllowed r.char then none
  else
    let ts := tokens (runes.map (·.char))
    match Node.ofTokens? ts with
    | some (.plain t) => if nullWords.contains t then some o else none
    | some (.mapping es) => (namedEntries? ts.length es).bind (assign? o [])
    | _ => none

end StackScript.Yaml
