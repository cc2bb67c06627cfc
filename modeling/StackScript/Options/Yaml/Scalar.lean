import StackScript.Options.Field
import StackScript.Text.Utf8

/-! Scalars of YAML as they are written: plain, between single or double quotes, or as
a block of lines. Inside a plain or a quoted scalar a line break is folded to a space,
and a break before empty lines is dropped in favour of them. Every reader gives the
characters that it leaves and where they begin. -/

namespace StackScript.Yaml

structure Place where
  line : Nat := 0
  column : Nat := 0
deriving DecidableEq

namespace Place

def next (p : Place) (n : Nat := 1) : Place := { p with column := p.column + n }

def nextLine (p : Place) : Place := ⟨p.line + 1, 0⟩

end Place

def isSeparatorBreak (c : Char) : Bool := c.toNat = 0x2028 || c.toNat = 0x2029

def isBreak (c : Char) : Bool := c = '\n' || isSeparatorBreak c

def isBlank (c : Char) : Bool := c = ' ' || c = '\t'

def unifyBreaks : List Char → List Char
  | [] => []
  | '\r' :: '\n' :: rest => '\n' :: unifyBreaks rest
  | c :: rest => (if c = '\r' || c.toNat = 0x85 then '\n' else c) :: unifyBreaks rest

def endsWord : List Char → Bool
  | [] => true
  | c :: _ => isBlank c || isBreak c

def isMarker : List Char → Bool
  | '-' :: '-' :: '-' :: rest => endsWord rest
  | '.' :: '.' :: '.' :: rest => endsWord rest
  | _ => false

/-- The text of a scalar so far, in reverse, and the blanks and breaks behind it, which
belong to it only if more of it follows. The first break is none when it is escaped. -/
structure Folding where
  done : List Char := []
  blanks : List Char := []
  breaks : Option (Option Char × List Char) := none

namespace Folding

def broken (f : Folding) : Bool := f.breaks.isSome

def waits (f : Folding) : Bool := f.broken || f.blanks ≠ []

def blank (f : Folding) (c : Char) : Folding :=
  if f.broken then f else { f with blanks := c :: f.blanks }

def newline (f : Folding) (c : Char) : Folding :=
  match f.breaks with
  | none => { f with blanks := [], breaks := some (some c, []) }
  | some (first, more) => { f with breaks := some (first, c :: more) }

def settled (f : Folding) : List Char :=
  match f.breaks with
  | none => f.blanks ++ f.done
  | some (some '\n', []) => ' ' :: f.done
  | some (some '\n', more) => more ++ f.done
  | some (first, more) => more ++ first.toList ++ f.done

def put (f : Folding) (c : Char) : Folding := { done := c :: f.settled }

end Folding

structure Reading (α : Type) where
  value : α
  rest : List Char
  place : Place

def endsPlain (inFlow : Bool) (c : Char) (rest : List Char) : Bool :=
  (c = ':' && endsWord rest) || (inFlow && ",?[]\x7b\x7d".toList.contains c)

/-- A plain scalar. Outside brackets its lines begin at the column `low` or behind it,
and a tab may not stand before that column. -/
def plainFrom (inFlow : Bool) (low : Nat) : List Char → Place → Folding → Option (Reading Folding)
  | [], p, f => some ⟨f, [], p⟩
  | c :: rest, p, f =>
    if isBreak c then plainFrom inFlow low rest p.nextLine (f.newline c)
    else if isBlank c then
      if f.broken && c = '\t' && p.column < low then none
      else plainFrom inFlow low rest p.next (f.blank c)
    else if f.waits &&
        ((!inFlow && p.column < low) || c = '#' || (p.column = 0 && isMarker (c :: rest))) then
      some ⟨f, c :: rest, p⟩
    else if endsPlain inFlow c rest then some ⟨f, c :: rest, p⟩
    else plainFrom inFlow low rest p.next (f.put c)

def escapeChar : Char → Option Char
  | '0' => some (Char.ofNat 0x00)
  | 'a' => some (Char.ofNat 0x07)
  | 'b' => some (Char.ofNat 0x08)
  | 't' => some '\t'
  | '\t' => some '\t'
  | 'n' => some '\n'
  | 'v' => some (Char.ofNat 0x0b)
  | 'f' => some (Char.ofNat 0x0c)
  | 'r' => some '\r'
  | 'e' => some (Char.ofNat 0x1b)
  | ' ' => some ' '
  | '"' => some '"'
  | '\'' => some '\''
  | '\\' => some '\\'
  | 'N' => some (Char.ofNat 0x85)
  | '_' => some (Char.ofNat 0xa0)
  | 'L' => some (Char.ofNat 0x2028)
  | 'P' => some (Char.ofNat 0x2029)
  | _ => none

def escapeWidth : Char → Option Nat
  | 'x' => some 2
  | 'u' => some 4
  | 'U' => some 8
  | _ => none

def hexChar? (digits : List Char) : Option Char :=
  (OptionLine.hexValue? (Text.ofChars digits)).bind fun n =>
    if n.isValidChar then some (Char.ofNat n) else none

/-- The character of an escape, given the one behind the backslash, and how many more
characters it takes. -/
def escape? (e : Char) (rest : List Char) : Option (Char × Nat) :=
  match escapeChar e with
  | some c => some (c, 0)
  | none => (escapeWidth e).bind fun width =>
      if rest.length < width then none else (hexChar? (rest.take width)).map (·, width)

/-- The rest of a scalar between quotes. A doubled single quote stands for itself, a
backslash escapes between double quotes, and no marker begins a line. Every step takes
a character. -/
def quotedFrom (double : Bool) : (fuel : Nat) → List Char → Place → Folding →
    Option (Reading (List Char))
  | 0, _, _, _ => none
  | _ + 1, [], _, _ => none
  | fuel + 1, c :: rest, p, f =>
    if isBreak c then quotedFrom double fuel rest p.nextLine (f.newline c)
    else if isBlank c then quotedFrom double fuel rest p.next (f.blank c)
    else if p.column = 0 && isMarker (c :: rest) then none
    else if double then
      match c, rest with
      | '"', rest => some ⟨f.settled.reverse, rest, p.next⟩
      | '\\', [] => none
      | '\\', e :: rest =>
        if isBreak e then
          quotedFrom double fuel rest p.nextLine { done := f.settled, breaks := some (none, []) }
        else (escape? e rest).bind fun (d, width) =>
          quotedFrom double fuel (rest.drop width) (p.next (width + 2)) (f.put d)
      | c, rest => quotedFrom double fuel rest p.next (f.put c)
    else
      match c, rest with
      | '\'', '\'' :: rest => quotedFrom double fuel rest (p.next 2) (f.put '\'')
      | '\'', rest => some ⟨f.settled.reverse, rest, p.next⟩
      | c, rest => quotedFrom double fuel rest p.next (f.put c)

inductive Chomping where
  | strip
  | clip
  | keep
deriving DecidableEq

/-- The indication of a block: how its end is treated and how far its lines are
indented, if that is said. -/
structure BlockHeader where
  chomping : Chomping := .clip
  indent : Option Nat := none

def chomping? : Char → Option Chomping
  | '+' => some .keep
  | '-' => some .strip
  | _ => none

def indentDigit? (c : Char) : Option Nat :=
  if '1' ≤ c && c ≤ '9' then some (c.toNat - 0x30) else none

def blockHeader : List Char → BlockHeader × List Char
  | c :: d :: rest =>
    match chomping? c, indentDigit? c with
    | some k, _ =>
      match indentDigit? d with
      | some n => (⟨k, some n⟩, rest)
      | none => (⟨k, none⟩, d :: rest)
    | none, some n =>
      match chomping? d with
      | some k => (⟨k, some n⟩, rest)
      | none => (⟨.clip, some n⟩, d :: rest)
    | none, none => ({}, c :: d :: rest)
  | [c] =>
    match chomping? c, indentDigit? c with
    | some k, _ => (⟨k, none⟩, [])
    | none, some n => (⟨.clip, some n⟩, [])
    | none, none => ({}, [c])
  | [] => ({}, [])

/-- The spaces and breaks before a line of a block, with the breaks in reverse and the
deepest column that was reached. Spaces belong to the indentation up to the column
`indent`, or all of them while none is known; a tab among them is refused. -/
def blockGap (indent : Option Nat) : List Char → Place → List Char → (deepest : Nat) →
    Option (Reading (List Char × Nat))
  | [], p, breaks, deepest => some ⟨(breaks, max deepest p.column), [], p⟩
  | c :: rest, p, breaks, deepest =>
    let indents := indent.elim true (p.column < ·)
    if c = ' ' && indents then blockGap indent rest p.next breaks deepest
    else if c = '\t' && indents then none
    else if isBreak c then blockGap indent rest p.nextLine (c :: breaks) (max deepest p.column)
    else some ⟨(breaks, max deepest p.column), c :: rest, p⟩

/-- A block of lines as far as it was read, in reverse: its text, the break behind it,
the empty lines behind that, and whether its last line begins with a blank. -/
structure Block where
  done : List Char := []
  last : List Char := []
  empty : List Char := []
  blank : Bool := false

/-- The text with the breaks before a next line. In a folded block a single break
between lines that begin with no blank is a space. -/
def Block.joined (b : Block) (folded blank : Bool) : List Char :=
  if folded && !b.blank && !blank && b.last = ['\n'] then
    b.empty ++ (if b.empty = [] then ' ' :: b.done else b.done)
  else b.empty ++ b.last ++ b.done

def blockFrom (folded : Bool) (indent : Nat) : (fuel : Nat) → List Char → Place → Block →
    Option (Reading Block)
  | 0, _, _, _ => none
  | _ + 1, [], p, b => some ⟨b, [], p⟩
  | fuel + 1, c :: rest, p, b =>
    if p.column ≠ indent then some ⟨b, c :: rest, p⟩
    else
      let line := (c :: rest).takeWhile (!isBreak ·)
      let done := line.reverse ++ b.joined folded (isBlank c)
      match (c :: rest).drop line.length with
      | [] => some ⟨{ done }, [], p.next line.length⟩
      | d :: rest =>
        (blockGap (some indent) rest p.nextLine [] 0).bind fun r =>
          blockFrom folded indent fuel r.rest r.place
            { done, last := [d], empty := r.value.1, blank := isBlank c }

def Block.chomped (b : Block) : Chomping → List Char
  | .strip => b.done.reverse
  | .clip => (b.last ++ b.done).reverse
  | .keep => (b.empty ++ b.last ++ b.done).reverse

/-- A block of lines behind its indicator. Its lines begin at the column `low` or behind
it, and in no case at the first column. -/
def block? (folded : Bool) (low : Nat) (t : List Char) (p : Place) :
    Option (Reading (List Char)) :=
  let (header, afterHeader) := blockHeader t
  let behind := afterHeader.dropWhile isBlank
  let behind := if behind.head? = some '#' then behind.dropWhile (!isBreak ·) else behind
  let start := match behind with
    | [] => some ([], p.next t.length)
    | c :: rest => if isBreak c then some (rest, p.nextLine) else none
  start.bind fun (lines, place) =>
    let stated := header.indent.map (low - 1 + ·)
    (blockGap stated lines place [] 0).bind fun gap =>
      let indent := stated.getD (max (max gap.value.2 low) 1)
      (blockFrom folded indent (gap.rest.length + 1) gap.rest gap.place
        { empty := gap.value.1 }).map fun r => ⟨r.value.chomped header.chomping, r.rest, r.place⟩

end StackScript.Yaml
