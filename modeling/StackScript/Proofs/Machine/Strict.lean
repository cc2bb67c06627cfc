import StackScript.Proofs.Machine.Safety
import StackScript.Proofs.Machine.Trail

/-! Reading without defaults. The strict machine obeys the same instructions, but a read outside
the code, the pool or the stack has no answer, and neither has an operand taken from an empty
stack or a place before the code. Whatever the code is, the strict machine always has an
answer, and it is the answer of the machine. -/

namespace StackScript

/-- What stands at the instruction pointer and what comes of it. -/
inductive Turn where
  | ended
  | refused (op : UInt8) (fault : MachineFault)
  | taken (i : Instruction) (effect : Effect)

theorem Opcode.toByte_of_ofByte? {b : UInt8} {op : Opcode} (known : ofByte? b = some op) :
    op.toByte = b := by
  unfold ofByte? at known
  split at known
  all_goals cases known
  all_goals rfl

namespace Machine

def turn (c : Chunk) (m : Machine) : Turn :=
  match m.fetch c with
  | .ended => .ended
  | .refused op fault => .refused op fault
  | .ready i => .taken i (m.execute c i)

namespace Strict

def peek (m : Machine) : Option Value := m.stack.back?

def pop (m : Machine) : Option (Value × Machine) := (peek m).map fun v => (v, m.drop)

def unary (f : Value → Except OperatorFault Value) (m : Machine) : Option Effect := do
  let (a, m) ← pop m
  match f a with
  | .ok v => return .next (m.push v)
  | .error e => return .fault (.operator e) m

def binary (f : Value → Value → Except OperatorFault Value) (m : Machine) : Option Effect := do
  let (b, m) ← pop m
  let (a, m) ← pop m
  match f a b with
  | .ok v => return .next (m.push v)
  | .error e => return .fault (.operator e) m

def select (m : Machine) : Option Effect := do
  let (falsy, m) ← pop m
  let (truthy, m) ← pop m
  let (condition, m) ← pop m
  return .next (m.push (if condition.truthy then truthy else falsy))

def withConstant (c : Chunk) (index : Nat) (m : Machine) (k : Value → Option Effect) :
    Option Effect :=
  if c.constants.size ≤ index then some (.fault (.constantRange index) m)
  else do k (← c.constants[index]?)

def withName (c : Chunk) (index : Nat) (m : Machine) (k : Text → Option Effect) : Option Effect :=
  withConstant c index m fun v =>
    match v with
    | .name s => k s
    | v => some (.fault (.notName v.kind) m)

def defineGlobal (m : Machine) (name : Text) : Option Effect := do
  let (v, m) ← pop m
  return .next { m with globals := m.globals.insert name v }

def setGlobal (m : Machine) (name : Text) : Option Effect :=
  if m.globals.contains name then do
    let v ← peek m
    return .next { m with globals := m.globals.insert name v }
  else some (.fault (.undefinedVariable name) m)

def getLocal (slot : Nat) (m : Machine) : Option Effect :=
  if m.stack.size ≤ slot then some (.fault (.slotRange slot) m)
  else do return .next (m.push (← m.stack[slot]?))

def store (stack : Array Value) (slot : Nat) (v : Value) : Option (Array Value) :=
  if h : slot < stack.size then some (stack.set slot v h) else none

def setLocal (slot : Nat) (m : Machine) : Option Effect :=
  if m.stack.size ≤ slot then some (.fault (.slotRange slot) m)
  else do
    let stack ← store m.stack slot (← peek m)
    return .next { m with stack }

def jumpFalse (distance : Nat) (m : Machine) : Option Effect := do
  return .next (if (← peek m).truthy then m else m.jumpBy distance)

def loopBack (distance : Nat) (m : Machine) : Option Effect :=
  if m.ip < distance then some (.fault (.loopRange ((m.ip : Int) - distance)) m)
  else do return .next { m with ip := ← ((m.ip : Int) - distance).toNat? }

/-- The effect of an instruction on a machine whose pointer is already behind it. -/
def perform (c : Chunk) (i : Instruction) (m : Machine) : Option Effect :=
  match i.op with
  | .constant => withConstant c i.operand m fun v => some (.next (m.push v))
  | .pushNone => some (.next (m.push .none))
  | .pushTrue => some (.next (m.push (.bool true)))
  | .pushFalse => some (.next (m.push (.bool false)))
  | .pop => do return .next (← pop m).2
  | .print => do
    let (v, m) ← pop m
    return .print (Text.line v.display) m
  | .finish => some (.finish m)
  | .add => binary Value.add m
  | .subtract => binary Value.subtract m
  | .multiply => binary Value.multiply m
  | .divide => binary Value.divide m
  | .negate => unary Value.negate m
  | .not => unary (fun v => .ok v.not) m
  | .ternary => select m
  | .equals => binary (equality true) m
  | .notEquals => binary (equality false) m
  | .less => binary (order Value.less) m
  | .lessEquals => binary (order Value.lessEqual) m
  | .greater => binary (order Value.greater) m
  | .greaterEquals => binary (order Value.greaterEqual) m
  | .defGlobal => withName c i.operand m (defineGlobal m)
  | .getGlobal => withName c i.operand m fun name => some (m.getGlobal name)
  | .setGlobal => withName c i.operand m (setGlobal m)
  | .getLocal => getLocal i.operand m
  | .setLocal => setLocal i.operand m
  | .jump => some (.next (m.jumpBy i.operand))
  | .jumpFalse => jumpFalse i.operand m
  | .loop => loopBack i.operand m

def operand (code : Array UInt8) (offset : Nat) : (width : Nat) → Option Nat
  | 0 => some 0
  | 1 => do return (← code[offset]?).toNat
  | _ => do return Chunk.wide (← code[offset]?) (← code[offset + 1]?)

/-- One instruction: the checks in their order, then its operand, then its effect. -/
def step (c : Chunk) (m : Machine) : Option Turn :=
  if c.code.size ≤ m.ip then some .ended
  else do
    let b ← c.code[m.ip]?
    match Opcode.ofByte? b with
    | none => return .refused b (.reservedByte b)
    | some op =>
      if c.code.size < m.ip + 1 + op.operandWidth then return .refused b (.truncated op)
      else if 0 < m.limit && m.limit ≤ m.count then return .refused b .instructionLimit
      else if m.stack.size < op.needs then return .refused b (.stackUnderflow op m.stack.size)
      else if op.grows && m.maxStack ≤ m.stack.size then
        return .refused b (.stackOverflow m.maxStack)
      else
        let i : Instruction := ⟨op, ← operand c.code (m.ip + 1) op.operandWidth⟩
        return .taken i (← perform c i { m with ip := m.ip + i.size, count := m.count + 1 })

variable {c : Chunk} {m : Machine}

theorem peek_eq (present : 0 < m.stack.size) : peek m = some m.top := by
  rw [peek, top, Array.back?_eq_getElem?, Array.getElem?_eq_getElem (by omega), Option.getD_some]

theorem pop_eq (present : 0 < m.stack.size) : pop m = some (m.top, m.drop) := by
  rw [pop, peek_eq present, Option.map_some]

theorem unary_eq (f : Value → Except OperatorFault Value) (enough : 1 ≤ m.stack.size) :
    unary f m = some (m.unary f) := by
  simp only [unary, Machine.unary, pop_eq enough, Option.bind_eq_bind, Option.bind_some]
  cases f m.top <;> rfl

theorem binary_eq (f : Value → Value → Except OperatorFault Value) (enough : 2 ≤ m.stack.size) :
    binary f m = some (m.binary f) := by
  have second : 0 < m.drop.stack.size := by
    rw [size_drop]
    omega
  simp only [binary, Machine.binary, pop_eq (Nat.lt_of_lt_of_le Nat.two_pos enough), pop_eq second,
    Option.bind_eq_bind, Option.bind_some]
  cases f m.drop.top m.top <;> rfl

theorem select_eq (enough : 3 ≤ m.stack.size) : select m = some m.select := by
  have second : 0 < m.drop.stack.size := by
    rw [size_drop]
    omega
  have third : 0 < m.drop.drop.stack.size := by
    rw [size_drop, size_drop]
    omega
  have first : 0 < m.stack.size := by omega
  simp only [select, Machine.select, pop_eq first, pop_eq second, pop_eq third, Option.bind_eq_bind,
    Option.bind_some]
  rfl

theorem withConstant_eq (index : Nat) (k : Value → Option Effect) :
    withConstant c index m k =
      match c.constants[index]? with
      | none => some (.fault (.constantRange index) m)
      | some v => k v := by
  unfold withConstant
  by_cases outside : c.constants.size ≤ index
  · rw [if_pos outside, Array.getElem?_eq_none outside]
  · rw [if_neg outside, Array.getElem?_eq_getElem (by omega)]
    rfl

theorem withName_eq {index : Nat} {k : Text → Option Effect} {k' : Text → Machine → Effect}
    (same : ∀ name, k name = some (k' name m)) :
    withName c index m k = some (m.withName c index k') := by
  rw [withName, withConstant_eq, Machine.withName]
  cases c.constants[index]? with
  | none => rfl
  | some v => cases v <;> first | exact same _ | rfl

theorem getLocal_eq (slot : Nat) : getLocal slot m = some (m.getLocal slot) := by
  unfold getLocal Machine.getLocal
  by_cases outside : m.stack.size ≤ slot
  · rw [if_pos outside, Array.getElem?_eq_none outside]
  · rw [if_neg outside, Array.getElem?_eq_getElem (by omega)]
    rfl

theorem setLocal_eq (slot : Nat) (enough : 1 ≤ m.stack.size) :
    setLocal slot m = some (m.setLocal slot) := by
  unfold setLocal Machine.setLocal
  by_cases outside : m.stack.size ≤ slot
  · rw [if_pos outside, if_neg (by omega)]
  · have inside : slot < m.stack.size := by omega
    simp only [if_neg outside, if_pos inside, peek_eq enough, store, dif_pos inside,
      Option.bind_eq_bind, Option.bind_some, Array.setIfInBounds]
    rfl

theorem loopBack_eq (distance : Nat) : loopBack distance m = some (m.loopBack distance) := by
  unfold loopBack Machine.loopBack
  by_cases before : m.ip < distance
  · rw [if_pos before, if_pos before]
  · have place : ((m.ip : Int) - distance).toNat? = some (m.ip - distance) := by
      rw [← Int.ofNat_sub (by omega)]
      rfl
    rw [if_neg before, if_neg before, place]
    rfl

/-- An instruction that finds its operands on the stack reads nothing that is not there. -/
theorem perform_eq {i : Instruction} (enough : i.op.needs ≤ m.stack.size) :
    perform c i m = some (m.perform c i) := by
  obtain ⟨op, n⟩ := i
  cases op with
  | constant =>
    simp only [perform, Machine.perform, withConstant_eq]
    cases c.constants[n]? <;> rfl
  | pushNone | pushTrue | pushFalse | finish | jump => rfl
  | pop | print =>
    simp only [perform, pop_eq enough]
    rfl
  | add | subtract | multiply | divide | equals | notEquals => exact binary_eq _ enough
  | less | lessEquals | greater | greaterEquals => exact binary_eq _ enough
  | negate => exact unary_eq Value.negate enough
  | not => exact unary_eq (fun v => .ok v.not) enough
  | ternary => exact select_eq enough
  | defGlobal =>
    refine withName_eq fun name => ?_
    simp only [defineGlobal, pop_eq enough]
    rfl
  | getGlobal => exact withName_eq fun name => rfl
  | setGlobal =>
    refine withName_eq fun name => ?_
    simp only [setGlobal, Machine.setGlobal, peek_eq enough]
    split <;> rfl
  | getLocal => exact getLocal_eq n
  | setLocal => exact setLocal_eq n enough
  | jumpFalse =>
    simp only [perform, jumpFalse, peek_eq enough]
    rfl
  | loop => exact loopBack_eq n

theorem operand_eq {code : Array UInt8} {offset : Nat} {op : Opcode}
    (whole : offset + op.operandWidth ≤ code.size) :
    operand code offset op.operandWidth = some (Instruction.operandAt code offset op.operandWidth) := by
  match width : op.operandWidth with
  | 0 => rfl
  | 1 =>
    rw [width] at whole
    simp only [operand, Instruction.operandAt, Array.getElem?_eq_getElem (show offset < code.size by omega)]
    rfl
  | n + 2 =>
    rw [width] at whole
    simp only [operand, Instruction.operandAt,
      Array.getElem?_eq_getElem (show offset < code.size by omega),
      Array.getElem?_eq_getElem (show offset + 1 < code.size by omega)]
    rfl

theorem step_eq (c : Chunk) (m : Machine) : step c m = some (m.turn c) := by
  unfold step turn fetch Instruction.decode
  by_cases past : c.code.size ≤ m.ip
  · simp only [if_pos past, Array.getElem?_eq_none past]
  have inside : m.ip < c.code.size := Nat.not_le.1 past
  simp only [if_neg past, Array.getElem?_eq_getElem inside, Option.bind_eq_bind, Option.bind_some]
  cases known : Opcode.ofByte? c.code[m.ip] with
  | none => rfl
  | some op =>
    have byte := Opcode.toByte_of_ofByte? known
    by_cases whole : m.ip + 1 + op.operandWidth ≤ c.code.size
    · simp only [if_pos whole, if_neg (Nat.not_lt.2 whole), byte]
      split
      · rfl
      · split
        · rfl
        · next enough =>
          split
          · rfl
          · rw [operand_eq whole]
            simp only [Option.bind_some]
            rw [perform_eq (Nat.not_lt.1 enough)]
            rfl
    · simp only [if_neg whole, if_pos (Nat.not_le.1 whole), byte]
      rfl

end Strict

end Machine

end StackScript
