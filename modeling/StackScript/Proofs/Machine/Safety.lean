import StackScript.Proofs.Machine.Balance

/-! Steps of balanced code. An instruction that follows the heights is never refused for want
of operands, and leads to a machine that is as high as the heights say. No step makes a name
into a value. -/

namespace StackScript

/-- Faults of the code itself, which no script should ever see. -/
def MachineFault.Internal : MachineFault → Prop
  | .reservedByte _ | .truncated _ | .stackUnderflow .. | .constantRange _ | .notName _
  | .slotRange _ | .loopRange _ => True
  | _ => False

/-- Faults that a script brings about by what it computes. -/
def MachineFault.Computed : MachineFault → Prop
  | .undefinedVariable _ | .operator _ => True
  | _ => False

theorem MachineFault.Computed.not_internal {fault : MachineFault} (h : fault.Computed) :
    ¬ fault.Internal := by
  cases fault with
  | undefinedVariable _ | operator _ => exact id
  | _ => exact h.elim

theorem MachineFault.Computed.not_overflow {fault : MachineFault} (h : fault.Computed) :
    fault.cause ≠ .stackOverflow := by
  match fault, h with
  | .undefinedVariable _, _ => simp [cause]
  | .operator e, _ => cases e <;> simp [cause, OperatorFault.cause]

namespace Machine

@[simp] theorem size_push (v : Value) (m : Machine) : (m.push v).stack.size = m.stack.size + 1 := by
  simp [push]

@[simp] theorem size_drop (m : Machine) : m.drop.stack.size = m.stack.size - 1 := by simp [drop]

@[simp] theorem ip_push (v : Value) (m : Machine) : (m.push v).ip = m.ip := rfl

@[simp] theorem ip_drop (m : Machine) : m.drop.ip = m.ip := rfl

def Reaches (next : List Nat) (height : Nat) : Effect → Prop
  | .next m | .print _ m => m.ip ∈ next ∧ m.stack.size = height
  | .finish _ => False
  | .fault fault _ => fault.Computed

/-- An effect that ends at a height that is known, or with a fault of the script. -/
def Keeps (heights : Nat → Option Nat) : Effect → Prop
  | .next m | .print _ m => heights m.ip = some m.stack.size
  | .finish _ => False
  | .fault fault _ => ¬ fault.Internal

variable {m : Machine}

theorem reaches_binary (f : Value → Value → Except OperatorFault Value) (enough : 2 ≤ m.stack.size) :
    Reaches [m.ip] (m.stack.size - 2 + 1) (m.binary f) := by
  unfold binary
  dsimp only
  split
  · simp only [Reaches, ip_push, ip_drop, List.mem_singleton, size_push, size_drop, true_and]
    omega
  · trivial

theorem reaches_unary (f : Value → Except OperatorFault Value) :
    Reaches [m.ip] (m.stack.size - 1 + 1) (m.unary f) := by
  unfold unary
  dsimp only
  split
  · simp [Reaches]
  · trivial

theorem reaches_select : Reaches [m.ip] (m.stack.size - 3 + 1) m.select := by
  simp only [select, Reaches, ip_push, ip_drop, List.mem_singleton, size_push, size_drop, true_and]
  omega

end Machine

open Machine

theorem Opcode.reaches {op : Opcode} {m : Machine} (width : op.operandWidth = 0)
    (goes : op ≠ .finish) (enough : op.needs ≤ m.stack.size) :
    Reaches [m.ip] (m.stack.size - op.needs + op.leaves) (Machine.perform {} ⟨op, 0⟩ m) := by
  cases op with
  | pushNone | pushTrue | pushFalse | pop | print =>
    simp [Machine.perform, Reaches, Opcode.needs, Opcode.leaves]
  | finish => exact absurd rfl goes
  | add | subtract | multiply | divide | equals | notEquals => exact reaches_binary _ enough
  | less | lessEquals | greater | greaterEquals => exact reaches_binary _ enough
  | negate => exact reaches_unary Value.negate
  | not => exact reaches_unary fun v => .ok v.not
  | ternary => exact reaches_select
  | _ => cases width

namespace Asm

theorem Apt.reaches {a : Asm} {offset : Nat} {m : Machine} (apt : a.Apt offset m.stack.size)
    (enough : a.op.needs ≤ m.stack.size) (ip : m.ip = offset + a.size) :
    Reaches (a.successors offset) (a.rise m.stack.size) (a.perform m) := by
  match a, apt with
  | .load v, _ => simp [perform, Reaches, Asm.successors, rise, op, Opcode.needs, Opcode.leaves, ip]
  | .plain op, ⟨width, goes⟩ =>
    have straight : (plain op).successors offset = [m.ip] := by simp [Asm.successors, ip]
    rw [straight]
    exact Opcode.reaches width goes enough
  | .define x, _ =>
    simp [perform, defineGlobal, Reaches, Asm.successors, rise, op, Opcode.needs, Opcode.leaves, ip]
  | .get (.slot n), small =>
    simp only [perform, getLocal, Array.getElem?_eq_getElem small]
    simp [Reaches, Asm.successors, rise, op, Opcode.needs, Opcode.leaves, ip]
  | .get (.global x), _ =>
    simp only [perform, getGlobal]
    split
    · simp [Reaches, Asm.successors, rise, op, Opcode.needs, Opcode.leaves, ip]
    · trivial
  | .set (.slot n), small =>
    simp only [Apt] at small
    simp only [perform, setLocal, if_pos small]
    refine ⟨by simp [Asm.successors, ip], ?_⟩
    exact Array.size_setIfInBounds.trans (Nat.sub_add_cancel enough).symm
  | .set (.global x), _ =>
    simp only [perform, setGlobal]
    split
    · exact ⟨by simp [Asm.successors, ip], (Nat.sub_add_cancel enough).symm⟩
    · trivial
  | .jump n, _ => exact ⟨by simp [Asm.successors, jumpBy, ip], rfl⟩
  | .jumpFalse n, _ =>
    refine ⟨?_, ?_⟩
    · split <;> simp [Asm.successors, jumpBy, ip]
    · refine Eq.trans ?_ (Nat.sub_add_cancel enough).symm
      split <;> rfl
  | .loop n, near =>
    have inside : ¬ m.ip < n := by
      rw [ip]
      exact Nat.not_lt.2 near
    simp only [perform, loopBack, if_neg inside]
    exact ⟨by simp [Asm.successors, ip], rfl⟩

theorem Follows.step {a : Asm} {heights : Nat → Option Nat} {m : Machine}
    (follows : a.Follows heights m.ip m.stack.size) : Keeps heights (a.step m) := by
  obtain ⟨operands, apt, leads⟩ := follows
  rcases a.step_cases m with ⟨_, step⟩ | ⟨few, step⟩ | ⟨_, step⟩ | ⟨_, step⟩
  · rw [step]
    exact id
  · exact absurd operands (Nat.not_le.2 few)
  · rw [step]
    exact id
  · rw [step]
    have reaches := @Apt.reaches a m.ip (a.pass m) apt operands rfl
    revert reaches
    cases a.perform (a.pass m) with
    | next m' | print line m' =>
      rintro ⟨next, size⟩
      change heights m'.ip = some m'.stack.size
      rw [size]
      exact leads _ next
    | finish m' => exact id
    | fault fault m' => exact MachineFault.Computed.not_internal

end Asm

end StackScript
