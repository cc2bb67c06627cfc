import StackScript.Files.Source
import StackScript.Number.Prefixed
import StackScript.Options.Load
import StackScript.Prompt

/-! The command line: flags, then options from a file under what the flags say, and
then the script or the prompt. -/

namespace StackScript

inductive FlagName where
  | debug
  | tokens
  | config
  | color
  | encoding
  | verbosity
deriving DecidableEq, Repr

namespace FlagName

def all : List (String × FlagName) :=
  [("debug", .debug), ("tokens", .tokens), ("config", .config), ("color", .color),
   ("encoding", .encoding), ("v", .verbosity)]

def ofName? (name : Text) : Option FlagName := (all.find? (utf8 ·.1 = name)).map (·.2)

/-- Switches take a value only behind an equals sign. -/
def isSwitch : FlagName → Bool
  | .debug | .tokens => true
  | _ => false

end FlagName

structure Flags where
  debug : Option Bool := none
  tokens : Option Bool := none
  config : Option Text := none
  color : Option Text := none
  encoding : Option Text := none
  verbosity : Option Int := none

inductive FlagFault where
  | help
  | badSyntax (argument : Text)
  | undefined (name : Text)
  | needsArgument (name : Text)
  | invalidSwitch (value name : Text)
  | invalidValue (value name : Text) (fault : Number.IntegerFault)
deriving DecidableEq

def FlagFault.message : FlagFault → Option Text
  | .help => none
  | .badSyntax argument => some (utf8 "bad flag syntax: " ++ argument)
  | .undefined name => some (utf8 "flag provided but not defined: -" ++ name)
  | .needsArgument name => some (utf8 "flag needs an argument: -" ++ name)
  | .invalidSwitch value name =>
    some (utf8 "invalid boolean value " ++ Text.quoted value ++ utf8 " for -" ++ name ++
      utf8 ": parse error")
  | .invalidValue value name .outOfRange =>
    some (utf8 "invalid value " ++ Text.quoted value ++ utf8 " for flag -" ++ name ++
      utf8 ": value out of range")
  | .invalidValue value name .malformed =>
    some (utf8 "invalid value " ++ Text.quoted value ++ utf8 " for flag -" ++ name ++
      utf8 ": parse error")

namespace Flags

def switchValue? (t : Text) : Option Bool :=
  if (["1", "t", "T", "true", "TRUE", "True"].map utf8).contains t then some true
  else if (["0", "f", "F", "false", "FALSE", "False"].map utf8).contains t then some false
  else none

def set (f : Flags) (flag : FlagName) (name value : Text) : Except FlagFault Flags :=
  match flag with
  | .debug =>
    match switchValue? value with
    | some b => .ok { f with debug := some b }
    | none => .error (.invalidSwitch value name)
  | .tokens =>
    match switchValue? value with
    | some b => .ok { f with tokens := some b }
    | none => .error (.invalidSwitch value name)
  | .config => .ok { f with config := some value }
  | .color => .ok { f with color := some value }
  | .encoding => .ok { f with encoding := some value }
  | .verbosity =>
    match Number.readPrefixedInteger value with
    | .ok n => .ok { f with verbosity := some n }
    | .error fault => .error (.invalidValue value name fault)

/-- A name and the value behind its first equals sign, which does not begin it. -/
def splitValue (t : Text) : Text × Option Text :=
  match t with
  | [] => ([], none)
  | b :: rest =>
    let name := rest.takeWhile (· ≠ 0x3d)
    match rest.drop name.length with
    | [] => (t, none)
    | _ :: value => (b :: name, some value)

inductive Argument where
  | positional
  | terminator
  | flag (body : Text)

def classify : Text → Argument
  | [0x2d, 0x2d] => .terminator
  | 0x2d :: 0x2d :: body => .flag body
  | 0x2d :: b :: body => .flag (b :: body)
  | _ => .positional

/-- Reads flags up to the first argument that is none, and gives the arguments from
there on. -/
def parse : List Text → Flags → Except FlagFault (Flags × List Text)
  | [], f => .ok (f, [])
  | arg :: rest, f =>
    match classify arg with
    | .positional => .ok (f, arg :: rest)
    | .terminator => .ok (f, rest)
    | .flag body =>
      if body = [] || body.head? = some 0x2d || body.head? = some 0x3d then .error (.badSyntax arg)
      else
        let (name, value?) := splitValue body
        match FlagName.ofName? name with
        | none =>
          .error (if name = utf8 "help" || name = utf8 "h" then .help else .undefined name)
        | some flag =>
          match value? with
          | some value =>
            match f.set flag name value with
            | .ok f => parse rest f
            | .error e => .error e
          | none =>
            if flag.isSwitch then
              match f.set flag name (utf8 "true") with
              | .ok f => parse rest f
              | .error e => .error e
            else match rest with
              | [] => .error (.needsArgument name)
              | value :: rest =>
                match f.set flag name value with
                | .ok f => parse rest f
                | .error e => .error e

/-- Flags that were given win over the options file. -/
def applyTo (f : Flags) (o : Options) : Options :=
  { o with
    debug := f.debug.getD o.debug
    printTokens := f.tokens.getD o.printTokens
    color := f.color.getD o.color
    encoding := f.encoding.getD o.encoding
    verbosity := f.verbosity.getD o.verbosity }

end Flags

structure CommandResult where
  exit : Nat
  out : Text := []
  err : Text := []

namespace CommandLine

def usage : Text :=
  utf8 "Usage: lox [options] [script]\n\n" ++
    utf8 "Runs a lox script, or starts a REPL when no script is given.\n\n" ++
    utf8 "Options:\n" ++
    utf8 "  -color string\n    \tDiagnostic colors: auto, always, never (default \"auto\")\n" ++
    utf8 "  -config string\n    \tConfig file (default: nearest lox.toml or lox.yaml)\n" ++
    utf8 "  -debug\n    \tTrace every instruction with the operand stack\n" ++
    utf8 "  -encoding string\n    \tSource file encoding: utf-8, shift_jis (default \"utf-8\")\n" ++
    utf8 "  -tokens\n    \tDump the token stream before compiling\n" ++
    utf8 "  -v int\n    \tLog verbosity\n"

def exitUsage : Nat := 64

def exitInput : Nat := 74

def exitFlags : Nat := 2

/-- From the named file, or from the nearest one, or the defaults. -/
def loadOptions (t : FileTree) (config : Text) : Except LoadFault Options :=
  if config ≠ [] then Options.load t config
  else (Options.find t (Path.join t.working)).map (·.getD {})

def refuse (exit : Nat) (label : String) (message : Text) : CommandResult :=
  { exit, err := utf8 label ++ message ++ utf8 "\n" }

def resultOf (exit : Nat) (s : Session) : CommandResult := ⟨exit, s.out.toList, s.err.toList⟩

def runScript (t : FileTree) (o : Options) : CommandResult :=
  match readSource t o.file o.encoding with
  | .error e => refuse exitInput "Error: " e.message
  | .ok source =>
    let (outcome, s) := (Session.new o).interpret Session.undisturbed 0 o.file source
    resultOf outcome.exitCode s

def runPrompt (o : Options) (input : Text) : CommandResult :=
  resultOf 0 (Prompt.run true (Prompt.events input) (Session.new o)).final.session

inductive Plan where
  | refuse (r : CommandResult)
  | script (o : Options)
  | prompt (o : Options)

def plan (t : FileTree) (args : List Text) : Plan :=
  match Flags.parse args {} with
  | .error e =>
    match e.message with
    | none => .refuse { exit := 0, err := usage }
    | some m => .refuse { exit := exitFlags, err := Text.line m ++ usage }
  | .ok (flags, rest) =>
    match loadOptions t (flags.config.getD []) with
    | .error e => .refuse (refuse exitUsage "Error loading config: " e.message)
    | .ok o =>
      let o := flags.applyTo o
      match o.fault? with
      | some f => .refuse (refuse exitUsage "Error: " f.message)
      | none =>
        match rest with
        | [] => .prompt o
        | [file] => .script { o with file }
        | _ => .refuse { exit := exitUsage, err := usage }

def run (t : FileTree) (args : List Text) (input : Text) : CommandResult :=
  match plan t args with
  | .refuse r => r
  | .script o => runScript t o
  | .prompt o => runPrompt o input

end CommandLine

end StackScript
