import StackScript.Options.Yaml.Scalar

/-! The tokens of YAML. Outside brackets the columns of a text decide its structure: a
token that begins behind the current indentation opens a collection, and one before it
closes the collections in between. That a scalar or a bracket is a key shows only at the
colon behind it, so the last place where a key can begin is remembered, and the tokens
of a key are put there when its colon is met. -/

namespace StackScript.Yaml

inductive Token where
  | scalar (plain : Bool) (text : Text)
  | sequenceStart
  | mappingStart
  | blockEnd
  | entry
  | key
  | value
  | bracketOpen
  | bracketClose
  | braceOpen
  | braceClose
  | comma
  | documentStart
  | documentEnd
  | streamEnd
deriving DecidableEq

/-- A place where a key may have begun: the number of the token there, and whether that
token can be nothing but a key. -/
structure PossibleKey where
  token : Nat
  place : Place
  required : Bool

def maxKeyLength : Nat := 1024

def PossibleKey.reaches (k : PossibleKey) (p : Place) : Bool :=
  k.place.line = p.line && p.column ≤ k.place.column + maxKeyLength

/-- A text as far as it is cut into tokens. There is an indentation for each open
collection outside brackets, the innermost first, and a possible key for each open
bracket and one for what is outside of them. -/
structure Layout where
  rest : List Char
  place : Place := {}
  tokens : Array Token := #[]
  indents : List Nat := []
  key : Option PossibleKey := none
  outer : List (Option PossibleKey) := []
  keyAllowed : Bool := true
  /-- Whether a comment that begins here is not at the end of a line with a token. -/
  ownLine : Bool := true

namespace Layout

def inFlow (s : Layout) : Bool := s.outer ≠ []

def low (s : Layout) : Nat := s.indents.head?.elim 0 (· + 1)

structure Gap where
  place : Place
  keyAllowed : Bool
  ownLine : Bool
  inComment : Bool := false
  /-- Whether a comment on a line of its own was passed. -/
  commented : Bool := false

def leadsToComment (acrossLines : Bool) (t : List Char) : Bool :=
  (t.dropWhile fun c => isBlank c || (acrossLines && isBreak c)).head? = some '#'

/-- Tabs are no indentation, so where a key may begin they are passed only before a
comment at the end of the line of a token, and before the further lines of one on lines
of its own. A byte order mark may begin a line. -/
def gapFrom (inFlow : Bool) : List Char → Gap → List Char × Gap
  | [], g => ([], g)
  | c :: rest, g =>
    if isBreak c then
      gapFrom inFlow rest { g with
        place := g.place.nextLine, keyAllowed := g.keyAllowed || !inFlow, ownLine := true,
        inComment := false }
    else if g.inComment then gapFrom inFlow rest { g with place := g.place.next }
    else if c = '#' then
      gapFrom inFlow rest { g with
        place := g.place.next, inComment := true, commented := g.commented || g.ownLine }
    else if c = ' ' || (c.toNat = 0xfeff && g.place.column = 0) ||
        (c = '\t' && (inFlow || !g.keyAllowed ||
          ((g.commented || !g.ownLine) && leadsToComment g.ownLine rest))) then
      gapFrom inFlow rest { g with place := g.place.next }
    else (c :: rest, g)

def skipGap (s : Layout) : Layout :=
  let (rest, g) := gapFrom s.inFlow s.rest ⟨s.place, s.keyAllowed, s.ownLine, false, false⟩
  { s with rest, place := g.place, keyAllowed := g.keyAllowed }

def close (s : Layout) (column : Option Nat) : Layout :=
  if s.inFlow then s
  else
    let kept := s.indents.dropWhile fun n => column.elim true (· < n)
    { s with
      indents := kept
      tokens := s.tokens ++ Array.replicate (s.indents.length - kept.length) .blockEnd }

/-- Opens a collection at a column behind the current indentation, before the token of
the given number. -/
def openAt (s : Layout) (column number : Nat) (start : Token) : Layout :=
  if s.inFlow || column < s.low then s
  else { s with
    indents := column :: s.indents
    tokens := s.tokens.insertIdxIfInBounds number start }

def dropKey? (s : Layout) : Option Layout :=
  match s.key with
  | some k => if k.required then none else some { s with key := none }
  | none => some s

def saveKey? (s : Layout) : Option Layout :=
  if s.keyAllowed then
    s.dropKey?.map fun s => { s with
      key := some ⟨s.tokens.size, s.place, !s.inFlow && s.indents.head? = some s.place.column⟩ }
  else some s

def push (s : Layout) (t : Token) (width : Nat) (keyAllowed : Bool) : Layout :=
  { s with
    rest := s.rest.drop width
    place := s.place.next width
    tokens := s.tokens.push t
    keyAllowed
    ownLine := t = .entry }

def marker? (s : Layout) (t : Token) : Option Layout :=
  (s.close none).dropKey?.map fun s => { s.push t 3 false with ownLine := true }

def openBracket? (s : Layout) (t : Token) : Option Layout :=
  s.saveKey?.map fun s => { s.push t 1 true with key := none, outer := s.key :: s.outer }

def closeBracket? (s : Layout) (t : Token) : Option Layout :=
  s.dropKey?.map fun s =>
    let s := s.push t 1 false
    match s.outer with
    | k :: outer => { s with key := k, outer }
    | [] => s

def comma? (s : Layout) : Option Layout := s.dropKey?.map fun s => s.push .comma 1 true

def indicator? (s : Layout) (t start : Token) (keyAllowed : Bool) : Option Layout :=
  if s.inFlow || s.keyAllowed then
    (s.openAt s.place.column s.tokens.size start).dropKey?.map fun s => s.push t 1 keyAllowed
  else none

def looseValue? (s : Layout) : Option Layout :=
  if s.inFlow then some (s.push .value 1 false)
  else if s.keyAllowed then
    some ((s.openAt s.place.column s.tokens.size .mappingStart).push .value 1 true)
  else none

/-- A colon. The key before it gets its token, and opens a mapping if it is indented
further than the current collection. -/
def value? (s : Layout) : Option Layout :=
  match s.key with
  | none => s.looseValue?
  | some k =>
    if k.reaches s.place then
      let s := { s with tokens := s.tokens.insertIdxIfInBounds k.token .key, key := none }
      some ((s.openAt k.place.column k.token .mappingStart).push .value 1 false)
    else if k.required then none
    else { s with key := none }.looseValue?

def scalar (s : Layout) (plain : Bool) (r : Reading (List Char)) (newLine : Bool) : Layout :=
  { s with
    rest := r.rest
    place := r.place
    tokens := s.tokens.push (.scalar plain (Text.ofChars r.value))
    keyAllowed := newLine
    ownLine := newLine }

def plain? (s : Layout) : Option Layout := do
  let s ← s.saveKey?
  let r ← plainFrom s.inFlow s.low s.rest s.place {}
  return s.scalar true ⟨r.value.done.reverse, r.rest, r.place⟩ r.value.broken

def quoted? (s : Layout) (double : Bool) : Option Layout := do
  let s ← s.saveKey?
  let r ← quotedFrom double s.rest.length (s.rest.drop 1) s.place.next {}
  return s.scalar false r false

def blockScalar? (s : Layout) (folded : Bool) : Option Layout := do
  let s ← s.dropKey?
  let r ← block? folded s.low (s.rest.drop 1) s.place.next
  return s.scalar false r true

def isIndicator (c : Char) : Bool := "-?:,[]\x7b\x7d#&*!|>'\"%@`".toList.contains c

def startsPlain (inFlow : Bool) (c : Char) (rest : List Char) : Bool :=
  !(isBlank c || isIndicator c) || (c = '-' && !rest.head?.any isBlank) ||
    (!inFlow && (c = '?' || c = ':') && !endsWord rest)

def token? (s : Layout) : Option Layout :=
  match s.rest with
  | [] => none
  | c :: rest =>
    if s.place.column = 0 && isMarker s.rest then
      s.marker? (if c = '-' then .documentStart else .documentEnd)
    else if c = '[' then s.openBracket? .bracketOpen
    else if c = '\x7b' then s.openBracket? .braceOpen
    else if c = ']' then s.closeBracket? .bracketClose
    else if c = '\x7d' then s.closeBracket? .braceClose
    else if c = ',' then s.comma?
    else if c = '-' && endsWord rest then s.indicator? .entry .sequenceStart true
    else if c = '?' && (s.inFlow || endsWord rest) then s.indicator? .key .mappingStart (!s.inFlow)
    else if c = ':' && (s.inFlow || endsWord rest) then s.value?
    else if (c = '|' || c = '>') && !s.inFlow then s.blockScalar? (c = '>')
    else if c = '\'' || c = '"' then s.quoted? (c = '"')
    else if startsPlain s.inFlow c rest then s.plain?
    else none

def end? (s : Layout) : Option Layout :=
  (s.close none).dropKey?.map fun s => { s with tokens := s.tokens.push .streamEnd }

/-- The tokens that may be used when the text cannot be cut further: a token is used
only together with the two behind it, and one that may yet become a key not at all. -/
def usable (s : Layout) : List Token :=
  let pending := (s.key :: s.outer).reverse.findSome? fun k =>
    k.bind fun k => if k.reaches s.place then some k.token else none
  s.tokens.toList.take (min (s.tokens.size - 2) (pending.getD s.tokens.size))

/-- Every step takes a character. -/
def tokensFrom : (fuel : Nat) → Layout → List Token
  | 0, s => s.usable
  | fuel + 1, s =>
    let begun := s.skipGap
    let begun := begun.close (some begun.place.column)
    if begun.rest = [] then (begun.end?.elim s.usable (·.tokens.toList))
    else match begun.token? with
      | some next => tokensFrom fuel next
      | none => s.usable

end Layout

def tokens (t : List Char) : List Token :=
  Layout.tokensFrom (t.length + 1) { rest := unifyBreaks t }

end StackScript.Yaml
