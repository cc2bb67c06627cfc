import StackScript.Code.Chunk

/-! Instructions: an operation with its operand, as the machine decodes them. -/

namespace StackScript

/-- An operation with the operand that follows it, zero where none does. -/
structure Instruction where
  op : Opcode
  operand : Nat := 0
deriving DecidableEq

inductive DecodeFault where
  | pastEnd
  | reserved (b : UInt8)
  | truncated (op : Opcode)
deriving DecidableEq

namespace Instruction

def size (i : Instruction) : Nat := 1 + i.op.operandWidth

def operandAt (code : Array UInt8) (offset : Nat) : (width : Nat) → Nat
  | 0 => 0
  | 1 => (code[offset]?.getD 0).toNat
  | _ => Chunk.wide (code[offset]?.getD 0) (code[offset + 1]?.getD 0)

def decode (code : Array UInt8) (offset : Nat) : Except DecodeFault Instruction :=
  match code[offset]? with
  | none => .error .pastEnd
  | some b =>
    match Opcode.ofByte? b with
    | none => .error (.reserved b)
    | some op =>
      if offset + 1 + op.operandWidth ≤ code.size then
        .ok ⟨op, operandAt code (offset + 1) op.operandWidth⟩
      else .error (.truncated op)

end Instruction

end StackScript
