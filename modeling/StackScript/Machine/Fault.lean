import StackScript.Code.Instruction
import StackScript.Diagnostic.Basic
import StackScript.Value.Arithmetic

/-! What can go wrong while code runs, the words for it, and the place it is
reported at. -/

namespace StackScript

inductive MachineFault where
  | reservedByte (b : UInt8)
  | truncated (op : Opcode)
  | instructionLimit
  | stackUnderflow (op : Opcode) (depth : Nat)
  | stackOverflow (limit : Nat)
  | constantRange (index : Nat)
  | notName (kind : Kind)
  | undefinedVariable (name : Text)
  | slotRange (slot : Nat)
  | loopRange (target : Int)
  | operator (fault : OperatorFault)
  | write (message : Text)
deriving DecidableEq

inductive Cause where
  | typeMismatch
  | divisionByZero
  | undefinedVariable
  | stackUnderflow
  | stackOverflow
  | instructionLimit
  | tooManyConstants
  | other
deriving DecidableEq, Repr

def OperatorFault.cause : OperatorFault → Cause
  | .mismatch .. | .notNegatable _ => .typeMismatch
  | .divisionByZero => .divisionByZero
  | .negativeRepeat _ | .repeatTooLong => .other

namespace MachineFault

def cause : MachineFault → Cause
  | .instructionLimit => .instructionLimit
  | .stackUnderflow .. | .slotRange _ => .stackUnderflow
  | .stackOverflow _ => .stackOverflow
  | .undefinedVariable _ => .undefinedVariable
  | .operator fault => fault.cause
  | _ => .other

def message : MachineFault → Text
  | .reservedByte b => utf8 "unknown opcode 0x" ++ Text.hex 2 b.toNat
  | .truncated op => utf8 "truncated " ++ op.label ++ utf8 " instruction"
  | .instructionLimit => utf8 "instruction limit exceeded"
  | .stackUnderflow op depth =>
    utf8 "stack underflow: " ++ op.label ++ utf8 " needs " ++ Text.natural op.needs ++
      utf8 " operand(s), have " ++ Text.natural depth
  | .stackOverflow limit => utf8 "stack overflow (limit " ++ Text.natural limit ++ utf8 ")"
  | .constantRange index => utf8 "constant index " ++ Text.natural index ++ utf8 " out of range"
  | .notName kind => utf8 "global name constant is " ++ kind.label ++ utf8 ", not identifier"
  | .undefinedVariable name => utf8 "undefined variable `" ++ name ++ utf8 "`"
  | .slotRange slot => utf8 "local slot " ++ Text.natural slot ++ utf8 " out of range"
  | .loopRange target => utf8 "loop target " ++ Text.decimal target ++ utf8 " out of range"
  | .operator fault => fault.message
  | .write message => message

end MachineFault

structure RuntimeError where
  fault : MachineFault
  file : Text := []
  line : Int := 0
  ip : Nat := 0
  op : UInt8 := 0
  span : Option Span := none
deriving DecidableEq

namespace RuntimeError

def locate (p : Program) (offset : Nat) (op : UInt8) (fault : MachineFault) : RuntimeError :=
  { fault, file := p.file, line := p.chunk.lineAt offset, ip := offset, op,
    span := p.spans.find? offset }

def message (e : RuntimeError) : Text := e.fault.message

def display (e : RuntimeError) : Text :=
  if 0 < e.line then
    if e.file = [] then utf8 "line " ++ Text.decimal e.line ++ utf8 ": " ++ e.message
    else e.file ++ utf8 ":" ++ Text.decimal e.line ++ utf8 ": " ++ e.message
  else e.message

def diagnostic (e : RuntimeError) : Diagnostic :=
  match e.span with
  | some s => .atSpan s e.message
  | none => .atLine e.file e.line e.message

end RuntimeError

end StackScript
