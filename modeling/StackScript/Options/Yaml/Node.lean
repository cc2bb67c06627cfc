import StackScript.Options.Yaml.Token

/-! The tree of a YAML document. Only the first document of a text is read, and nothing
behind it matters. What is missing where a node may stand is an empty plain scalar. -/

namespace StackScript.Yaml

inductive Node where
  | plain (text : Text)
  | quoted (text : Text)
  | sequence (items : List Node)
  | mapping (entries : List (Node × Node))

namespace Node

def empty : Node := .plain []

def endsBlock : Token → Bool
  | .key | .value | .blockEnd => true
  | _ => false

def endsItem : Token → Bool
  | .entry | .blockEnd => true
  | _ => false

def endsFlow (close : Token) (t : Token) : Bool := t = .comma || t = close

mutual

/-- A node and the tokens behind it. Where `loose` holds, a sequence may stand without an
indentation of its own. No more than two nested calls are made for each token. -/
def parse : (fuel : Nat) → (loose : Bool) → List Token → Option (Node × List Token)
  | 0, _, _ => none
  | fuel + 1, loose, ts =>
    match ts with
    | .scalar true t :: rest => some (.plain t, rest)
    | .scalar false t :: rest => some (.quoted t, rest)
    | .entry :: rest =>
      if loose then (looseItems fuel (.entry :: rest)).map fun (l, rest) => (.sequence l, rest)
      else none
    | .sequenceStart :: rest => (items fuel rest).map fun (l, rest) => (.sequence l, rest)
    | .mappingStart :: rest => (entries fuel rest).map fun (l, rest) => (.mapping l, rest)
    | .bracketOpen :: rest => (bracketItems fuel true rest).map fun (l, rest) => (.sequence l, rest)
    | .braceOpen :: rest => (braceEntries fuel true rest).map fun (l, rest) => (.mapping l, rest)
    | _ => none

def parseUnless : (fuel : Nat) → (ends : Token → Bool) → (loose : Bool) → List Token →
    Option (Node × List Token)
  | 0, _, _, _ => none
  | _ + 1, _, _, [] => none
  | fuel + 1, ends, loose, t :: rest =>
    if ends t then some (empty, t :: rest) else parse fuel loose (t :: rest)

def parseValue : (fuel : Nat) → (ends : Token → Bool) → (loose : Bool) → List Token →
    Option (Node × List Token)
  | 0, _, _, _ => none
  | _ + 1, _, _, [] => none
  | fuel + 1, ends, loose, .value :: rest => parseUnless fuel ends loose rest
  | _ + 1, _, _, t :: rest => some (empty, t :: rest)

def items : (fuel : Nat) → List Token → Option (List Node × List Token)
  | 0, _ => none
  | _ + 1, .blockEnd :: rest => some ([], rest)
  | fuel + 1, .entry :: rest => do
    let (item, rest) ← parseUnless fuel endsItem false rest
    let (more, rest) ← items fuel rest
    return (item :: more, rest)
  | _ + 1, _ => none

def looseItems : (fuel : Nat) → List Token → Option (List Node × List Token)
  | 0, _ => none
  | fuel + 1, .entry :: rest => do
    let (item, rest) ← parseUnless fuel (fun t => endsItem t || endsBlock t) false rest
    let (more, rest) ← looseItems fuel rest
    return (item :: more, rest)
  | _ + 1, ts => some ([], ts)

def entries : (fuel : Nat) → List Token → Option (List (Node × Node) × List Token)
  | 0, _ => none
  | _ + 1, .blockEnd :: rest => some ([], rest)
  | fuel + 1, .key :: rest => do
    let (key, rest) ← parseUnless fuel endsBlock true rest
    let (value, rest) ← parseValue fuel endsBlock true rest
    let (more, rest) ← entries fuel rest
    return ((key, value) :: more, rest)
  | _ + 1, _ => none

/-- The items of a sequence in brackets, of which all but the first follow a comma. An
item may be a single entry of a mapping; where its key is missing, the token in place
of the key is passed over. -/
def bracketItems : (fuel : Nat) → (first : Bool) → List Token → Option (List Node × List Token)
  | 0, _, _ => none
  | _ + 1, _, .bracketClose :: rest => some ([], rest)
  | fuel + 1, false, .comma :: rest => bracketItems fuel true rest
  | _ + 1, false, _ => none
  | fuel + 1, true, .key :: rest => do
    let ends t := t = .value || endsFlow .bracketClose t
    let (key, rest) ← match rest with
      | [] => none
      | t :: behind => if ends t then some (empty, behind) else parse fuel false rest
    let (value, rest) ← parseValue fuel (endsFlow .bracketClose) false rest
    let (more, rest) ← bracketItems fuel false rest
    return (.mapping [(key, value)] :: more, rest)
  | fuel + 1, true, ts => do
    let (item, rest) ← parse fuel false ts
    let (more, rest) ← bracketItems fuel false rest
    return (item :: more, rest)

/-- The entries of a mapping in braces, of which all but the first follow a comma. A
key alone has an empty value. -/
def braceEntries : (fuel : Nat) → (first : Bool) → List Token →
    Option (List (Node × Node) × List Token)
  | 0, _, _ => none
  | _ + 1, _, .braceClose :: rest => some ([], rest)
  | fuel + 1, false, .comma :: rest => braceEntries fuel true rest
  | _ + 1, false, _ => none
  | fuel + 1, true, .key :: rest => do
    let (key, rest) ← parseUnless fuel (fun t => t = .value || endsFlow .braceClose t) false rest
    let (value, rest) ← parseValue fuel (endsFlow .braceClose) false rest
    let (more, rest) ← braceEntries fuel false rest
    return ((key, value) :: more, rest)
  | fuel + 1, true, ts => do
    let (key, rest) ← parse fuel false ts
    let (more, rest) ← braceEntries fuel false rest
    return ((key, empty) :: more, rest)

end

def root? (ts : List Token) : Option Node :=
  match parse (2 * ts.length + 2) false ts with
  | some (n, _ :: _) => some n
  | _ => none

def ofTokens? : List Token → Option Node
  | .streamEnd :: _ => some empty
  | .documentStart :: .documentStart :: _ => some empty
  | .documentStart :: .documentEnd :: _ => some empty
  | .documentStart :: .streamEnd :: _ => some empty
  | .documentStart :: rest => root? rest
  | ts => root? ts

end Node

end StackScript.Yaml
