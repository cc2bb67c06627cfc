import StackScript.Files.Tree
import StackScript.Options.Toml
import StackScript.Options.Yaml

/-! Options files: reading one by its path, and finding the nearest one from a
directory upwards. -/

namespace StackScript

inductive LoadFault where
  | unreadable (path : Text) (fault : ReadFault)
  | malformed (path : Text)
  | unknownFormat (extension path : Text)
  | refused (path : Text) (fault : OptionFault)
deriving DecidableEq

def LoadFault.message : LoadFault → Text
  | .unreadable path fault => utf8 "cannot read " ++ path ++ utf8 ": " ++ fault.message path
  | .malformed path => utf8 "parse error in " ++ path
  | .unknownFormat extension path =>
    utf8 "unsupported config format " ++ Text.quoted extension ++ utf8 " for " ++ path
  | .refused path fault => path ++ utf8 ": " ++ fault.message

namespace Options

def fileNames : List Text := [utf8 "lox.toml", utf8 "lox.yaml", utf8 "lox.yml"]

/-- The format is told by the extension. What the file does not set keeps its
default. -/
def load (t : FileTree) (path : Text) : Except LoadFault Options :=
  match t.read path with
  | .error e => .error (.unreadable path e)
  | .ok data =>
    let ext := Text.lowercase (Path.extension path)
    let parsed? := if ext = utf8 ".toml" then some (Toml.options? {} data)
      else if ext = utf8 ".yaml" || ext = utf8 ".yml" then some (Yaml.options? {} data)
      else none
    match parsed? with
    | none => .error (.unknownFormat ext path)
    | some none => .error (.malformed path)
    | some (some o) =>
      match o.fault? with
      | some f => .error (.refused path f)
      | none => .ok { o with path }

def fileIn? (t : FileTree) (dir : List Text) : Option Text :=
  (fileNames.map fun name => Path.join (dir ++ [name])).find? t.present

def nearest? (t : FileTree) : List Text → Option Text
  | [] => fileIn? t []
  | c :: parent => (fileIn? t (c :: parent).reverse).or (nearest? t parent)

def find (t : FileTree) (dir : Text) : Except LoadFault (Option Options) :=
  match nearest? t (t.absolute dir).reverse with
  | none => .ok none
  | some path => (load t path).map some

end Options

end StackScript
