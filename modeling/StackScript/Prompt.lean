import StackScript.Session.Basic
import StackScript.Text.Utf8

/-! The prompt loop. Lines are gathered while braces are open and then interpreted
together; a line at an empty buffer may also be a command. A snapshot is an
interpreter put aside, and restoring goes on with a copy of it. -/

namespace StackScript

inductive LineEvent where
  | line (t : Text)
  | aborted
  | ended
  | failed
deriving DecidableEq

/-- `current` and `snapshot` are interpreters of the session. -/
structure Prompt where
  session : Session
  current : Nat := 0
  snapshot : Option Nat := none
  buffer : Text := []

namespace Prompt

def fileName : Text := utf8 "<repl>"

def banner : Text := utf8 "lox REPL (type 'exit' to quit, ':help' for commands)\n"

def ask (p : Prompt) : Text := if p.buffer = [] then utf8 "lox> " else utf8 "...> "

/-- The braces opened and not closed in a source; one that cannot be cut into tokens
is complete, so that the fault is reported. -/
def openBraces (source : Text) : Int :=
  match Lexer.tokens fileName source with
  | ⟨_, some _⟩ => 0
  | ⟨tokens, none⟩ => tokens.foldl (fun n t =>
      match t.kind with
      | .leftBrace => n + 1
      | .rightBrace => n - 1
      | _ => n) 0

def print (t : Text) (p : Prompt) : Prompt := { p with session := p.session.print t }

def help : Text :=
  utf8 ":globals   list defined globals\n" ++ utf8 ":dis       disassemble the last input\n" ++
    utf8 ":reset     clear every global\n" ++ utf8 ":snapshot  remember the current globals\n" ++
    utf8 ":restore   go back to the last snapshot\n"

def printError (message : Text) (p : Prompt) : Prompt :=
  p.print (utf8 "Error: " ++ message ++ utf8 "\n")

def listGlobals (p : Prompt) : Prompt :=
  p.print ((p.session.globalNames p.current).flatMap Text.line)

def listProgram (p : Prompt) : Prompt :=
  let (text, fault) := p.session.listing p.current
  let p := p.print text
  match fault with
  | some f => p.printError f.message
  | none => p

def reset (p : Prompt) : Prompt :=
  match p.session.reset p.current with
  | (.refused message, session) => { p with session }.printError message
  | (_, session) => { p with session }

def takeSnapshot (p : Prompt) : Prompt :=
  match p.session.duplicate p.current with
  | (.created index, session) => { p with session, snapshot := some index }
  | (.refused message, session) => { p with session }.printError message
  | (_, session) => { p with session }

def restore (p : Prompt) : Prompt :=
  match p.snapshot with
  | none => p.printError (utf8 "no snapshot")
  | some kept =>
    match p.session.duplicate kept with
    | (.created index, session) =>
      { p with session := session.modify index ({ · with out := .primary }), current := index }
    | (.refused message, session) => { p with session }.printError message
    | (_, session) => { p with session }

def command (name : Text) (p : Prompt) : Prompt :=
  if name = utf8 ":help" then p.print help
  else if name = utf8 ":globals" then p.listGlobals
  else if name = utf8 ":dis" then p.listProgram
  else if name = utf8 ":reset" then p.reset
  else if name = utf8 ":snapshot" then p.takeSnapshot
  else if name = utf8 ":restore" then p.restore
  else p.print (utf8 "Unknown command " ++ name ++ utf8 " (try :help)\n")

def interpret (source : Text) (p : Prompt) : Prompt :=
  { p with session := (p.session.interpret Session.undisturbed p.current fileName source).2 }

inductive Action where
  | leave
  | discard
  | ignore
  | command (name : Text)
  | hold (source : Text)
  | interpret (source : Text)
deriving DecidableEq

/-- A line joins the lines gathered so far, and they are interpreted once no brace is
open. -/
def gather (buffer line : Text) : Action :=
  let source := buffer ++ Text.line line
  if 0 < openBraces source then .hold source else .interpret source

/-- Only a line that begins an input can be a command or be blank. -/
def actionFor (buffer : Text) : LineEvent → Action
  | .ended | .failed => .leave
  | .aborted => .discard
  | .line line =>
    if buffer ≠ [] then gather buffer line
    else
      let trimmed := Text.trim line
      if trimmed = utf8 "exit" || trimmed = utf8 "quit" then .leave
      else if trimmed.head? = some 0x3a then .command trimmed
      else if trimmed = [] then .ignore
      else gather [] line

/-- Carries out an action; says whether the loop goes on. -/
def perform (a : Action) (p : Prompt) : Prompt × Bool :=
  match a with
  | .leave => (p, false)
  | .discard => ({ p with buffer := [] }, true)
  | .ignore => (p, true)
  | .command name => (p.command name, true)
  | .hold source => ({ p with buffer := source }, true)
  | .interpret source => ({ p with buffer := [] }.interpret source, true)

def feed (e : LineEvent) (p : Prompt) : Prompt × Bool := p.perform (actionFor p.buffer e)

/-- A transcript of the loop: its final state, the prompts that were asked, and the
events that were not read. -/
structure Transcript where
  final : Prompt
  asked : List Text
  unread : List LineEvent

/-- The loop over the answers of a reader, which has ended when there are no more. A
reader may show its prompts in the output. -/
def loop (echo : Bool) : List LineEvent → List Text → Prompt → Transcript
  | [], asked, p =>
    let prompt := p.ask
    ⟨if echo then p.print prompt else p, (prompt :: asked).reverse, []⟩
  | e :: rest, asked, p =>
    let prompt := p.ask
    let p := if echo then p.print prompt else p
    match p.feed e with
    | (p, true) => loop echo rest (prompt :: asked) p
    | (p, false) => ⟨p, (prompt :: asked).reverse, rest⟩

def start (s : Session) : Prompt :=
  ({ session := s.modify 0 ({ · with out := .primary }) } : Prompt).print banner

def run (echo : Bool) (events : List LineEvent) (s : Session) : Transcript :=
  let t := loop echo events [] (start s)
  { t with final := t.final.print (utf8 "\n") }

def maxLine : Nat := 65535

def lineEvent (line : Text) : LineEvent :=
  if maxLine < line.length then .failed
  else .line (if line.getLast? = some 0x0d then line.dropLast else line)

/-- Pieces between line feeds as a reader answers them. What follows the last line
feed is a line unless it is empty. -/
def eventsFrom : List Text → List LineEvent
  | [] => []
  | [last] => if last = [] then [] else [lineEvent last]
  | line :: rest => lineEvent line :: eventsFrom rest

def events (input : Text) : List LineEvent := eventsFrom input.splitLines

end Prompt

end StackScript
