import StackScript.Code.Instruction

/-! Symbolic code: instructions that name their constants and variables instead of
numbering them. What an operand stands for depends on a constant pool, and stays what it
is when the pool grows; the length of an instruction does not depend on it at all. -/

namespace StackScript

inductive Location where
  | slot (n : Nat)
  | global (name : Text)
deriving DecidableEq

inductive Asm where
  | load (v : Value)
  | plain (op : Opcode)
  | define (name : Text)
  | get (l : Location)
  | set (l : Location)
  | jump (distance : Nat)
  | jumpFalse (distance : Nat)
  | loop (distance : Nat)
deriving DecidableEq

namespace Asm

def op : Asm → Opcode
  | .load _ => .constant
  | .plain op => op
  | .define _ => .defGlobal
  | .get (.slot _) => .getLocal
  | .get (.global _) => .getGlobal
  | .set (.slot _) => .setLocal
  | .set (.global _) => .setGlobal
  | .jump _ => .jump
  | .jumpFalse _ => .jumpFalse
  | .loop _ => .loop

def size (a : Asm) : Nat := 1 + a.op.operandWidth

theorem size_pos (a : Asm) : 0 < a.size := by
  unfold size
  omega

@[simp] theorem size_pop : (plain .pop).size = 1 := rfl

@[simp] theorem size_jump (n : Nat) : (jump n).size = 3 := rfl

@[simp] theorem size_jumpFalse (n : Nat) : (jumpFalse n).size = 3 := rfl

@[simp] theorem size_loop (n : Nat) : (loop n).size = 3 := rfl

def distance : Asm → Nat
  | .jump n | .jumpFalse n | .loop n => n
  | _ => 0

def Operand (pool : List Value) : Asm → Nat → Prop
  | .load v, n => pool[n]? = some v
  | .plain op, _ => op.operandWidth = 0
  | .define x, n | .get (.global x), n | .set (.global x), n => pool[n]? = some (.name x)
  | .get (.slot k), n | .set (.slot k), n => n = k
  | .jump k, n | .jumpFalse k, n | .loop k, n => n = k

theorem Operand.mono {pool pool' : List Value} {a : Asm} {n : Nat} (grows : pool <+: pool')
    (h : a.Operand pool n) : a.Operand pool' n := by
  obtain ⟨more, rfl⟩ := grows
  have keeps {v : Value} (h : pool[n]? = some v) : (pool ++ more)[n]? = some v := by
    rw [List.getElem?_append_left (List.getElem?_eq_some_iff.1 h).1, h]
  match a, h with
  | .load _, h | .define _, h | .get (.global _), h | .set (.global _), h => exact keeps h
  | .plain _, h | .get (.slot _), h | .set (.slot _), h => exact h
  | .jump _, h | .jumpFalse _, h | .loop _, h => exact h

end Asm

def operandBytes (n : Nat) : (width : Nat) → List UInt8
  | 0 => []
  | 1 => [UInt8.ofNat n]
  | _ => [Chunk.highByte n, Chunk.lowByte n]

def operandRange : (width : Nat) → Nat
  | 0 => 1
  | 1 => 256
  | _ => 65536

theorem Chunk.wide_bytes {n : Nat} (h : n < 65536) : wide (highByte n) (lowByte n) = n := by
  simp only [wide, highByte, lowByte, UInt8.toNat_ofNat']
  omega

theorem Opcode.operandWidth_le (op : Opcode) : op.operandWidth ≤ 2 := by
  cases op <;> decide

theorem length_operandBytes (n : Nat) (op : Opcode) :
    (operandBytes n op.operandWidth).length = op.operandWidth := by
  cases op <;> rfl

def Asm.Encodes (pool : List Value) (a : Asm) (bytes : List UInt8) : Prop :=
  ∃ n, a.Operand pool n ∧ n < operandRange a.op.operandWidth ∧
    bytes = a.op.toByte :: operandBytes n a.op.operandWidth

theorem Asm.Encodes.length {pool : List Value} {a : Asm} {bytes : List UInt8}
    (h : a.Encodes pool bytes) : bytes.length = a.size := by
  obtain ⟨n, _, _, rfl⟩ := h
  rw [List.length_cons, length_operandBytes, Asm.size, Nat.add_comm]

theorem operandAt_bytes {op : Opcode} {n : Nat} (h : n < operandRange op.operandWidth)
    {code : Array UInt8} {before after : List UInt8}
    (split : code.toList = before ++ (op.toByte :: operandBytes n op.operandWidth ++ after)) :
    Instruction.operandAt code (before.length + 1) op.operandWidth = n := by
  have at? (i : Nat) : code[before.length + 1 + i]? =
      (operandBytes n op.operandWidth ++ after)[i]? := by
    rw [← Array.getElem?_toList, split, List.getElem?_append_right (by omega)]
    rw [show before.length + 1 + i - before.length = i + 1 by omega]
    rfl
  have first := at? 0
  have second := at? 1
  have bound := op.operandWidth_le
  generalize op.operandWidth = width at h first second bound
  match width with
  | 0 =>
    simp only [operandRange] at h
    simp only [Instruction.operandAt]
    omega
  | 1 =>
    simp only [operandRange] at h
    simp only [operandBytes, Nat.add_zero, List.cons_append, List.getElem?_cons_zero] at first
    simp only [Instruction.operandAt, first, Option.getD_some, UInt8.toNat_ofNat']
    omega
  | 2 =>
    simp only [operandBytes, Nat.add_zero, List.cons_append, List.getElem?_cons_zero] at first
    simp only [operandBytes, List.cons_append, List.getElem?_cons_succ,
      List.getElem?_cons_zero] at second
    simp only [Instruction.operandAt, first, second, Option.getD_some]
    exact Chunk.wide_bytes h

theorem Asm.Encodes.decode {pool : List Value} {a : Asm} {bytes : List UInt8}
    (h : a.Encodes pool bytes) {code : Array UInt8} {before after : List UInt8}
    (split : code.toList = before ++ (bytes ++ after)) :
    ∃ n, a.Operand pool n ∧ Instruction.decode code before.length = .ok ⟨a.op, n⟩ := by
  obtain ⟨n, stands, small, rfl⟩ := h
  refine ⟨n, stands, ?_⟩
  have byte : code[before.length]? = some a.op.toByte := by
    rw [← Array.getElem?_toList, split, List.getElem?_append_right (Nat.le_refl _), Nat.sub_self]
    rfl
  have fits : before.length + 1 + a.op.operandWidth ≤ code.size := by
    have size := congrArg List.length split
    simp only [Array.length_toList, List.length_append, List.length_cons,
      length_operandBytes] at size
    omega
  simp only [Instruction.decode, byte, Opcode.ofByte?_toByte, if_pos fits]
  rw [operandAt_bytes small split]

namespace Asm

def total : List Asm → Nat
  | [] => 0
  | a :: code => a.size + total code

@[simp] theorem total_nil : total [] = 0 := rfl

@[simp] theorem total_cons (a : Asm) (code : List Asm) : total (a :: code) = a.size + total code :=
  rfl

@[simp] theorem total_append (code code' : List Asm) :
    total (code ++ code') = total code + total code' := by
  induction code with
  | nil => simp
  | cons a code ih => rw [List.cons_append, total_cons, total_cons, ih, Nat.add_assoc]

def Assembles (pool : List Value) : List Asm → List UInt8 → Prop
  | [], bytes => bytes = []
  | a :: code, bytes => ∃ first rest, bytes = first ++ rest ∧ a.Encodes pool first ∧
      Assembles pool code rest

namespace Assembles

variable {pool : List Value} {code code' : List Asm} {bytes bytes' : List UInt8}

theorem single {a : Asm} (h : a.Encodes pool bytes) : Assembles pool [a] bytes :=
  ⟨bytes, [], (List.append_nil _).symm, h, rfl⟩

theorem append (h : Assembles pool code bytes) (h' : Assembles pool code' bytes') :
    Assembles pool (code ++ code') (bytes ++ bytes') := by
  induction code generalizing bytes with
  | nil =>
    obtain rfl : bytes = [] := h
    exact h'
  | cons a code ih =>
    obtain ⟨first, rest, rfl, encodes, assembles⟩ := h
    exact ⟨first, rest ++ bytes', List.append_assoc .., encodes, ih assembles⟩

theorem split (h : Assembles pool (code ++ code') bytes) :
    ∃ first rest, bytes = first ++ rest ∧ Assembles pool code first ∧ Assembles pool code' rest := by
  induction code generalizing bytes with
  | nil => exact ⟨[], bytes, rfl, rfl, h⟩
  | cons a code ih =>
    obtain ⟨first, rest, rfl, encodes, assembles⟩ := h
    obtain ⟨first', rest', rfl, assembles', last⟩ := ih assembles
    exact ⟨first ++ first', rest', (List.append_assoc ..).symm,
      ⟨first, first', rfl, encodes, assembles'⟩, last⟩

theorem length (h : Assembles pool code bytes) : bytes.length = total code := by
  induction code generalizing bytes with
  | nil =>
    obtain rfl : bytes = [] := h
    rfl
  | cons a code ih =>
    obtain ⟨first, rest, rfl, encodes, assembles⟩ := h
    rw [List.length_append, encodes.length, ih assembles, total_cons]

theorem mono {pool' : List Value} (grows : pool <+: pool') (h : Assembles pool code bytes) :
    Assembles pool' code bytes := by
  induction code generalizing bytes with
  | nil => exact h
  | cons a code ih =>
    obtain ⟨first, rest, rfl, ⟨n, stands, encodes⟩, assembles⟩ := h
    exact ⟨first, rest, rfl, ⟨n, stands.mono grows, encodes⟩, ih assembles⟩

theorem patch {a a' : Asm} {n : Nat} (h : Assembles pool (code ++ a :: code') bytes)
    (op : a'.op = a.op) (wide : a.op.operandWidth = 2) (stands : a'.Operand pool n)
    (small : n < 65536) :
    Assembles pool (code ++ a' :: code')
      ((bytes.set (total code + 1) (Chunk.highByte n)).set (total code + 2) (Chunk.lowByte n)) := by
  obtain ⟨before, rest, rfl, first, assembles⟩ := h.split
  obtain ⟨encoded, after, rfl, ⟨m, _, _, rfl⟩, last⟩ := assembles
  have encodes : a'.Encodes pool [a.op.toByte, Chunk.highByte n, Chunk.lowByte n] := by
    refine ⟨n, stands, ?_, ?_⟩
    · rw [op, wide]
      exact small
    · rw [op, wide]
      rfl
  rw [wide, ← first.length, List.set_append_right _ _ (by omega),
    List.set_append_right _ _ (by omega)]
  simp only [Nat.add_sub_cancel_left]
  exact first.append ⟨_, after, rfl, encodes, last⟩

end Assembles

end Asm

end StackScript
