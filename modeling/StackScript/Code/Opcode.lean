import StackScript.Text.Basic

/-! The operations of the machine, their bytes, and what they need. Bytes between
the listed ones are reserved and mean nothing. -/

namespace StackScript

inductive Opcode where
  | constant
  | pushNone
  | pushTrue
  | pushFalse
  | pop
  | print
  | finish
  | add
  | subtract
  | multiply
  | divide
  | negate
  | not
  | ternary
  | equals
  | notEquals
  | less
  | lessEquals
  | greater
  | greaterEquals
  | defGlobal
  | getGlobal
  | setGlobal
  | getLocal
  | setLocal
  | jump
  | jumpFalse
  | loop
deriving DecidableEq, Repr

namespace Opcode

def toByte : Opcode → UInt8
  | .constant => 0
  | .pushNone => 1
  | .pushTrue => 2
  | .pushFalse => 3
  | .pop => 4
  | .print => 5
  | .finish => 6
  | .add => 8
  | .subtract => 9
  | .multiply => 10
  | .divide => 11
  | .negate => 12
  | .not => 13
  | .ternary => 14
  | .equals => 16
  | .notEquals => 17
  | .less => 18
  | .lessEquals => 19
  | .greater => 20
  | .greaterEquals => 21
  | .defGlobal => 24
  | .getGlobal => 25
  | .setGlobal => 26
  | .getLocal => 32
  | .setLocal => 33
  | .jump => 40
  | .jumpFalse => 41
  | .loop => 42

def ofByte? : UInt8 → Option Opcode
  | 0 => some .constant
  | 1 => some .pushNone
  | 2 => some .pushTrue
  | 3 => some .pushFalse
  | 4 => some .pop
  | 5 => some .print
  | 6 => some .finish
  | 8 => some .add
  | 9 => some .subtract
  | 10 => some .multiply
  | 11 => some .divide
  | 12 => some .negate
  | 13 => some .not
  | 14 => some .ternary
  | 16 => some .equals
  | 17 => some .notEquals
  | 18 => some .less
  | 19 => some .lessEquals
  | 20 => some .greater
  | 21 => some .greaterEquals
  | 24 => some .defGlobal
  | 25 => some .getGlobal
  | 26 => some .setGlobal
  | 32 => some .getLocal
  | 33 => some .setLocal
  | 40 => some .jump
  | 41 => some .jumpFalse
  | 42 => some .loop
  | _ => none

@[simp] theorem ofByte?_toByte (op : Opcode) : ofByte? op.toByte = some op := by
  cases op <;> rfl

def label : Opcode → Text
  | .constant => utf8 "OP_CONSTANT"
  | .pushNone => utf8 "OP_NONE"
  | .pushTrue => utf8 "OP_TRUE"
  | .pushFalse => utf8 "OP_FALSE"
  | .pop => utf8 "OP_POP"
  | .print => utf8 "OP_PRINT"
  | .finish => utf8 "OP_RETURN"
  | .add => utf8 "OP_ADD"
  | .subtract => utf8 "OP_SUBTRACT"
  | .multiply => utf8 "OP_MULTIPLY"
  | .divide => utf8 "OP_DIVIDE"
  | .negate => utf8 "OP_NEGATE"
  | .not => utf8 "OP_NOT"
  | .ternary => utf8 "OP_TERNARY"
  | .equals => utf8 "OP_EQUALS"
  | .notEquals => utf8 "OP_NOT_EQUALS"
  | .less => utf8 "OP_LESS"
  | .lessEquals => utf8 "OP_LESS_EQUALS"
  | .greater => utf8 "OP_GREATER"
  | .greaterEquals => utf8 "OP_GREATER_EQUALS"
  | .defGlobal => utf8 "OP_DEF_GLOBAL"
  | .getGlobal => utf8 "OP_GET_GLOBAL"
  | .setGlobal => utf8 "OP_SET_GLOBAL"
  | .getLocal => utf8 "OP_GET_LOCAL"
  | .setLocal => utf8 "OP_SET_LOCAL"
  | .jump => utf8 "OP_JUMP"
  | .jumpFalse => utf8 "OP_JUMP_FALSE"
  | .loop => utf8 "OP_LOOP"

def operandWidth : Opcode → Nat
  | .constant | .defGlobal | .getGlobal | .setGlobal | .jump | .jumpFalse | .loop => 2
  | .getLocal | .setLocal => 1
  | _ => 0

def needs : Opcode → Nat
  | .pop | .print | .negate | .not | .defGlobal | .setGlobal | .setLocal | .jumpFalse => 1
  | .add | .subtract | .multiply | .divide | .equals | .notEquals | .less | .lessEquals
  | .greater | .greaterEquals => 2
  | .ternary => 3
  | _ => 0

def grows : Opcode → Bool
  | .constant | .pushNone | .pushTrue | .pushFalse | .getGlobal | .getLocal => true
  | _ => false

end Opcode

/-- The length of the instruction that begins with a byte; a reserved byte is alone. -/
def instructionLength (b : UInt8) : Nat := 1 + (Opcode.ofByte? b).elim 0 Opcode.operandWidth

end StackScript
