import StackScript.Text.Basic

/-! Paths as texts: components between slashes, the lexical clean form, and the extension.
A tree of files and directories with a working directory is read by them. Opening a path
walks it step by step, so a step up from something that is not there fails like any other
step from there, and nothing can be reached through a file. -/

namespace StackScript.Path

def slash : UInt8 := 0x2f

def dot : Text := utf8 "."

def dotDot : Text := utf8 ".."

def isAbsolute (p : Text) : Bool := p.head? = some slash

def pieces (p : Text) : List Text :=
  let (last, done) := p.foldr (fun b (cur, done) =>
    if b = slash then ([], cur :: done) else (b :: cur, done)) ([], [])
  last :: done

/-- The steps to take one after the other. A slash at the end is a step that stays
where it is, as a dot is. -/
def steps (p : Text) : List Text :=
  (pieces p).filter (· ≠ []) ++ if p.getLast? = some slash then [dot] else []

def components (p : Text) : List Text := (pieces p).filter fun c => c ≠ [] && c ≠ dot

/-- The components of an absolute path with every parent step carried out. -/
def resolve (cs : List Text) : List Text :=
  (cs.foldl (fun done c => if c = dotDot then done.drop 1 else c :: done) []).reverse

def join (cs : List Text) : Text :=
  if cs = [] then [slash] else cs.flatMap fun c => slash :: c

def extension (p : Text) : Text :=
  let tail := (p.reverse.takeWhile (· ≠ slash)).reverse
  let after := tail.reverse.takeWhile (· ≠ 0x2e)
  if after.length = tail.length then [] else tail.drop (tail.length - after.length - 1)

end StackScript.Path

namespace StackScript

inductive ReadFault where
  | missing
  | notDirectory
  | isDirectory
deriving DecidableEq, Repr

def ReadFault.message (path : Text) : ReadFault → Text
  | .missing => utf8 "open " ++ path ++ utf8 ": no such file or directory"
  | .notDirectory => utf8 "open " ++ path ++ utf8 ": not a directory"
  | .isDirectory => utf8 "read " ++ path ++ utf8 ": is a directory"

/-- Files and directories by their components from the root. A directory is there as
soon as something is in it. -/
structure FileTree where
  files : List (List Text × Text) := []
  directories : List (List Text) := []
  working : List Text := []

inductive Node where
  | file (content : Text)
  | directory

namespace FileTree

def holds (t : FileTree) (cs : List Text) : Bool :=
  t.directories.any cs.isPrefixOf || t.files.any fun (p, _) => cs.isPrefixOf p && cs ≠ p

def node? (t : FileTree) (cs : List Text) : Option Node :=
  match t.files.find? (·.1 = cs) with
  | some (_, content) => some (.file content)
  | none => if cs = [] || t.holds cs then some .directory else none

def move (place : List Text) (step : Text) : List Text :=
  if step = Path.dot then place else if step = Path.dotDot then place.drop 1 else step :: place

/-- Takes steps from a place, which is reversed. Every step needs a directory to
start from, also one that stays where it is. -/
def walk (t : FileTree) : (place : List Text) → List Text → Except ReadFault Node
  | place, steps =>
    match t.node? place.reverse with
    | none => .error .missing
    | some node =>
      match steps, node with
      | [], _ => .ok node
      | _ :: _, .file _ => .error .notDirectory
      | step :: steps, .directory => walk t (move place step) steps

def open? (t : FileTree) (path : Text) : Except ReadFault Node :=
  if path = [] then .error .missing
  else t.walk (if Path.isAbsolute path then [] else t.working.reverse) (Path.steps path)

def read (t : FileTree) (path : Text) : Except ReadFault Text :=
  match t.open? path with
  | .ok (.file content) => .ok content
  | .ok .directory => .error .isDirectory
  | .error e => .error e

def present (t : FileTree) (path : Text) : Bool := (t.open? path).isOk

/-- A path from the root, with parent steps carried out on its text alone. -/
def absolute (t : FileTree) (path : Text) : List Text :=
  let cs := Path.components path
  Path.resolve (if Path.isAbsolute path then cs else t.working ++ cs)

end FileTree

end StackScript
