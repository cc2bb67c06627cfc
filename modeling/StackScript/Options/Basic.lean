import StackScript.Text.Lowercase
import StackScript.Text.Quoted

/-! The options of an interpreter and of the command line, and which of them are
refused. -/

namespace StackScript

structure Options where
  debug : Bool := false
  printTokens : Bool := false
  file : Text := []
  color : Text := utf8 "auto"
  verbosity : Int := 0
  maxStack : Int := 1024
  instructionLimit : Int := 0
  encoding : Text := utf8 "utf-8"
  path : Text := []
deriving DecidableEq

inductive Encoding where
  | utf8
  | shiftJis
deriving DecidableEq, Repr

def Encoding.ofName? (name : Text) : Option Encoding :=
  let n := Text.lowercase name
  if n = [] || n = StackScript.utf8 "utf-8" || n = StackScript.utf8 "utf8" then some .utf8
  else if n = StackScript.utf8 "shift_jis" || n = StackScript.utf8 "sjis" then some .shiftJis
  else none

inductive OptionFault where
  | color (name : Text)
  | encoding (name : Text)
  | maxStack
  | instructionLimit
deriving DecidableEq

def OptionFault.message : OptionFault → Text
  | .color name => utf8 "invalid color mode " ++ Text.quoted name
  | .encoding name => utf8 "unsupported encoding " ++ Text.quoted name
  | .maxStack => utf8 "max-stack must not be negative"
  | .instructionLimit => utf8 "instruction-limit must not be negative"

namespace Options

/-- Colour modes are spelled in lower case here. -/
def colorNames : List Text := [[], utf8 "auto", utf8 "always", utf8 "never"]

def fault? (o : Options) : Option OptionFault :=
  if o.color ∉ colorNames then some (.color o.color)
  else if (Encoding.ofName? o.encoding).isNone then some (.encoding o.encoding)
  else if o.maxStack < 0 then some .maxStack
  else if o.instructionLimit < 0 then some .instructionLimit
  else none

end Options

end StackScript
