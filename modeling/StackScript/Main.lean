import StackScript.CommandLine

/-! The command. What it may need of the disk is read into a tree first. At the
prompt the input is taken line by line, and what the session has written is passed on
after each of them. -/

open StackScript

namespace Command

def bytesOf (t : Text) : ByteArray := ⟨t.toArray⟩

def textOf (b : ByteArray) : Text := b.data.toList

def look (t : FileTree) (cs : List Text) : IO FileTree := do
  let path := (← IO.currentDir) / (String.fromUTF8? (bytesOf (Path.join cs))).getD "/"
  if ← path.isDir then return { t with directories := cs :: t.directories }
  try
    return { t with files := (cs, textOf (← IO.FS.readBinFile path)) :: t.files }
  catch _ => return t

def wayTo (cs : List Text) : List (List Text) :=
  (List.range (cs.length + 1)).map cs.take

def lookAlong (t : FileTree) (cs : List Text) : IO FileTree :=
  (wayTo cs).foldlM look t

def candidates (working : List Text) : List (List Text) :=
  (wayTo working).flatMap fun dir => Options.fileNames.map fun name => dir ++ [name]

/-- The part of the disk that the arguments can lead to. -/
def readTree (args : List Text) : IO FileTree := do
  let working := Path.components (utf8 (← IO.currentDir).toString)
  let t : FileTree := { working }
  let named := args.map fun arg => t.absolute ((arg.dropWhile (· ≠ 0x3d)).drop 1)
  let t ← (args.map t.absolute ++ named ++ candidates working).foldlM lookAlong t
  return t

def put (stream : IO.FS.Stream) (t : Array UInt8) : IO Unit := do
  stream.write ⟨t⟩
  stream.flush

def passOn (s : Session) : IO Session := do
  put (← IO.getStdout) s.out
  put (← IO.getStderr) s.err
  return s.drain

partial def readLine (stream : IO.FS.Stream) (done : Array UInt8) : IO (Array UInt8 × Bool) := do
  let b ← stream.read 1
  match b.data.toList with
  | [] => return (done, false)
  | c :: _ => if c = Text.newline then return (done, true) else readLine stream (done.push c)

partial def converse (input : IO.FS.Stream) (p : Prompt) : IO Prompt := do
  let p := p.print p.ask
  let p := { p with session := ← passOn p.session }
  let (line, complete) ← readLine input #[]
  let event := if complete || !line.isEmpty then Prompt.lineEvent line.toList else .ended
  match p.feed event with
  | (p, true) => converse input p
  | (p, false) => return p

end Command

def main (args : List String) : IO UInt32 := do
  let args := args.map utf8
  let t ← Command.readTree args
  match CommandLine.plan t args with
  | .prompt o =>
    let p ← Command.converse (← IO.getStdin) (Prompt.start (Session.new o))
    let _ ← Command.passOn (p.print (utf8 "\n")).session
    return 0
  | .script o =>
    let r := CommandLine.runScript t o
    Command.put (← IO.getStdout) r.out.toArray
    Command.put (← IO.getStderr) r.err.toArray
    return r.exit.toUInt32
  | .refuse r =>
    Command.put (← IO.getStderr) r.err.toArray
    return r.exit.toUInt32
