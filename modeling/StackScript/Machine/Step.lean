import StackScript.Machine.Basic
import StackScript.Value.Comparison

/-! One instruction. First it is fetched, which checks that it is whole, that the
limit allows it, and that the stack has its operands and room for its result; then
it takes effect. -/

namespace StackScript

inductive Fetched where
  | ended
  | refused (op : UInt8) (fault : MachineFault)
  | ready (i : Instruction)
deriving DecidableEq

/-- What an instruction does. A printed line is written before the machine goes on. -/
inductive Effect where
  | next (m : Machine)
  | print (line : Text) (m : Machine)
  | finish (m : Machine)
  | fault (f : MachineFault) (m : Machine)

namespace Machine

def fetch (c : Chunk) (m : Machine) : Fetched :=
  match Instruction.decode c.code m.ip with
  | .error .pastEnd => .ended
  | .error (.reserved b) => .refused b (.reservedByte b)
  | .error (.truncated op) => .refused op.toByte (.truncated op)
  | .ok i =>
    if 0 < m.limit && m.limit ≤ m.count then .refused i.op.toByte .instructionLimit
    else if m.stack.size < i.op.needs then
      .refused i.op.toByte (.stackUnderflow i.op m.stack.size)
    else if i.op.grows && m.maxStack ≤ m.stack.size then
      .refused i.op.toByte (.stackOverflow m.maxStack)
    else .ready i

/-- The value on top; fetching makes sure that there is one where it is used. -/
def top (m : Machine) : Value := m.stack.back?.getD .none

def push (v : Value) (m : Machine) : Machine := { m with stack := m.stack.push v }

def drop (m : Machine) : Machine := { m with stack := m.stack.pop }

def unary (f : Value → Except OperatorFault Value) (m : Machine) : Effect :=
  let a := m.top
  let m := m.drop
  match f a with
  | .ok v => .next (m.push v)
  | .error e => .fault (.operator e) m

def binary (f : Value → Value → Except OperatorFault Value) (m : Machine) : Effect :=
  let b := m.top
  let m := m.drop
  let a := m.top
  let m := m.drop
  match f a b with
  | .ok v => .next (m.push v)
  | .error e => .fault (.operator e) m

def equality (expected : Bool) (a b : Value) : Except OperatorFault Value :=
  (Value.equatable a b).map fun _ => .bool (Value.equal a b == expected)

def order (less : Value → Value → Bool) (a b : Value) : Except OperatorFault Value :=
  (Value.comparable a b).map fun _ => .bool (less a b)

def select (m : Machine) : Effect :=
  let falsy := m.top
  let m := m.drop
  let truthy := m.top
  let m := m.drop
  let condition := m.top
  let m := m.drop
  .next (m.push (if condition.truthy then truthy else falsy))

def withName (c : Chunk) (index : Nat) (m : Machine) (k : Text → Machine → Effect) : Effect :=
  match c.constants[index]? with
  | none => .fault (.constantRange index) m
  | some (.name s) => k s m
  | some v => .fault (.notName v.kind) m

def defineGlobal (name : Text) (m : Machine) : Effect :=
  let v := m.top
  let m := m.drop
  .next { m with globals := m.globals.insert name v }

def getGlobal (name : Text) (m : Machine) : Effect :=
  match m.globals[name]? with
  | some v => .next (m.push v)
  | none => .fault (.undefinedVariable name) m

/-- The assigned value stays on the stack. -/
def setGlobal (name : Text) (m : Machine) : Effect :=
  if m.globals.contains name then
    let v := m.top
    .next { m with globals := m.globals.insert name v }
  else .fault (.undefinedVariable name) m

def getLocal (slot : Nat) (m : Machine) : Effect :=
  match m.stack[slot]? with
  | some v => .next (m.push v)
  | none => .fault (.slotRange slot) m

def setLocal (slot : Nat) (m : Machine) : Effect :=
  if slot < m.stack.size then
    let v := m.top
    .next { m with stack := m.stack.setIfInBounds slot v }
  else .fault (.slotRange slot) m

def jumpBy (distance : Nat) (m : Machine) : Machine := { m with ip := m.ip + distance }

def loopBack (distance : Nat) (m : Machine) : Effect :=
  if m.ip < distance then .fault (.loopRange ((m.ip : Int) - distance)) m
  else .next { m with ip := m.ip - distance }

/-- The effect of an instruction on a machine whose pointer is already behind it. -/
def perform (c : Chunk) (i : Instruction) (m : Machine) : Effect :=
  match i.op with
  | .constant =>
    match c.constants[i.operand]? with
    | some v => .next (m.push v)
    | none => .fault (.constantRange i.operand) m
  | .pushNone => .next (m.push .none)
  | .pushTrue => .next (m.push (.bool true))
  | .pushFalse => .next (m.push (.bool false))
  | .pop => .next m.drop
  | .print =>
    let v := m.top
    .print (Text.line v.display) m.drop
  | .finish => .finish m
  | .add => m.binary Value.add
  | .subtract => m.binary Value.subtract
  | .multiply => m.binary Value.multiply
  | .divide => m.binary Value.divide
  | .negate => m.unary Value.negate
  | .not => m.unary fun v => .ok v.not
  | .ternary => m.select
  | .equals => m.binary (equality true)
  | .notEquals => m.binary (equality false)
  | .less => m.binary (order Value.less)
  | .lessEquals => m.binary (order Value.lessEqual)
  | .greater => m.binary (order Value.greater)
  | .greaterEquals => m.binary (order Value.greaterEqual)
  | .defGlobal => m.withName c i.operand defineGlobal
  | .getGlobal => m.withName c i.operand getGlobal
  | .setGlobal => m.withName c i.operand setGlobal
  | .getLocal => m.getLocal i.operand
  | .setLocal => m.setLocal i.operand
  | .jump => .next (m.jumpBy i.operand)
  | .jumpFalse => .next (if m.top.truthy then m else m.jumpBy i.operand)
  | .loop => m.loopBack i.operand

def execute (c : Chunk) (i : Instruction) (m : Machine) : Effect :=
  perform c i { m with ip := m.ip + i.size, count := m.count + 1 }

end Machine

end StackScript
