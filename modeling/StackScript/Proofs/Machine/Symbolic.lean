import StackScript.Machine.Run
import StackScript.Proofs.Language

/-! Runs of symbolic code. A program that holds a fragment does at each instruction of it
what the symbolic instruction says, whatever the constants are numbered. -/

namespace StackScript

open Asm

namespace Asm

/-- The effect of an instruction on a machine whose pointer is already behind it. -/
def perform (a : Asm) (m : Machine) : Effect :=
  match a with
  | .load v => .next (m.push v)
  | .plain op => Machine.perform {} ⟨op, 0⟩ m
  | .define x => m.defineGlobal x
  | .get (.slot n) => m.getLocal n
  | .get (.global x) => m.getGlobal x
  | .set (.slot n) => m.setLocal n
  | .set (.global x) => m.setGlobal x
  | .jump n => .next (m.jumpBy n)
  | .jumpFalse n => .next (if m.top.truthy then m else m.jumpBy n)
  | .loop n => m.loopBack n

/-- An instruction is refused, or it is counted and takes effect. -/
def step (a : Asm) (m : Machine) : Effect :=
  if 0 < m.limit && m.limit ≤ m.count then .fault .instructionLimit m
  else if m.stack.size < a.op.needs then .fault (.stackUnderflow a.op m.stack.size) m
  else if a.op.grows && m.maxStack ≤ m.stack.size then .fault (.stackOverflow m.maxStack) m
  else a.perform { m with ip := m.ip + a.size, count := m.count + 1 }

def pass (a : Asm) (m : Machine) : Machine := { m with ip := m.ip + a.size, count := m.count + 1 }

theorem step_cases (a : Asm) (m : Machine) :
    (0 < m.limit ∧ a.step m = .fault .instructionLimit m) ∨
      (m.stack.size < a.op.needs ∧ a.step m = .fault (.stackUnderflow a.op m.stack.size) m) ∨
      ((a.op.grows ∧ m.maxStack ≤ m.stack.size) ∧ a.step m = .fault (.stackOverflow m.maxStack) m) ∨
      (a.op.needs ≤ m.stack.size ∧ a.step m = a.perform (a.pass m)) := by
  unfold step
  split
  · next refused =>
    simp only [Bool.and_eq_true, decide_eq_true_eq] at refused
    exact .inl ⟨refused.1, rfl⟩
  · split
    · next few => exact .inr (.inl ⟨few, rfl⟩)
    · next enough =>
      split
      · next full =>
        simp only [Bool.and_eq_true, decide_eq_true_eq] at full
        exact .inr (.inr (.inl ⟨full, rfl⟩))
      · exact .inr (.inr (.inr ⟨Nat.not_lt.1 enough, rfl⟩))

def At (code : List Asm) (offset : Nat) (a : Asm) : Prop :=
  ∃ before after, code = before ++ a :: after ∧ total before = offset

theorem At.left {code : List Asm} {o : Nat} {a : Asm} (h : At code o a) (rest : List Asm) :
    At (code ++ rest) o a := by
  obtain ⟨before, after, rfl, size⟩ := h
  exact ⟨before, after ++ rest, by simp, size⟩

theorem At.here (code : List Asm) (a : Asm) (rest : List Asm) :
    At (code ++ a :: rest) (total code) a := ⟨code, rest, rfl, rfl⟩

theorem At.unique {code : List Asm} {o : Nat} {a b : Asm} (h : At code o a) (h' : At code o b) :
    a = b := by
  obtain ⟨before, after, rfl, rfl⟩ := h
  obtain ⟨before', after', split, size⟩ := h'
  induction before generalizing before' with
  | nil =>
    cases before' with
    | nil => exact (List.cons.inj split).1
    | cons x before' =>
      have positive := x.size_pos
      rw [total_cons, total_nil] at size
      omega
  | cons y before ih =>
    cases before' with
    | nil =>
      have positive := y.size_pos
      rw [total_cons, total_nil] at size
      omega
    | cons x before' =>
      obtain ⟨rfl, tail⟩ := List.cons.inj split
      exact ih before' tail (Nat.add_left_cancel size)

theorem At.lt_total {code : List Asm} {o : Nat} {a : Asm} (h : At code o a) : o < total code := by
  obtain ⟨before, after, rfl, rfl⟩ := h
  have positive := a.size_pos
  rw [total_append, total_cons]
  omega

theorem perform_eq {c : Chunk} {a : Asm} {n : Nat} (stands : a.Operand c.constants.toList n)
    (m : Machine) : Machine.perform c ⟨a.op, n⟩ m = a.perform m := by
  match a, stands with
  | .load v, stands =>
    simp only [Operand, Array.getElem?_toList] at stands
    simp only [Machine.perform, op, stands, perform]
  | .plain op, width => cases op <;> cases width <;> rfl
  | .define x, stands | .get (.global x), stands | .set (.global x), stands =>
    simp only [Operand, Array.getElem?_toList] at stands
    simp only [Machine.perform, op, Machine.withName, stands, perform]
  | .get (.slot k), rfl | .set (.slot k), rfl => rfl
  | .jump k, rfl | .jumpFalse k, rfl | .loop k, rfl => rfl

end Asm

def Has (code : List Asm) (o : Nat) (part : List Asm) : Prop :=
  ∃ before after, code = before ++ (part ++ after) ∧ total before = o

namespace Has

variable {code part more : List Asm} {o : Nat}

theorem left (h : Has code o (part ++ more)) : Has code o part := by
  obtain ⟨before, after, rfl, size⟩ := h
  exact ⟨before, more ++ after, by simp, size⟩

theorem right (h : Has code o (part ++ more)) : Has code (o + total part) more := by
  obtain ⟨before, after, rfl, rfl⟩ := h
  exact ⟨before ++ part, after, by simp, by simp⟩

theorem move {o' : Nat} (h : Has code o part) (same : o = o') : Has code o' part := same ▸ h

theorem inner {a : Asm} {k : Nat} (h : Has code o part) (stands : At part k a) : At code (k + o) a := by
  obtain ⟨before, after, rfl, rfl⟩ := h
  obtain ⟨first, last, rfl, rfl⟩ := stands
  exact ⟨before ++ first, last ++ after, by simp, by rw [total_append, Nat.add_comm]⟩

theorem head {a : Asm} (h : Has code o (a :: more)) : At code o a := by
  obtain ⟨before, after, rfl, size⟩ := h
  exact ⟨before, more ++ after, by simp, size⟩

theorem tail {a : Asm} (h : Has code o (a :: more)) : Has code (o + a.size) more := by
  have rest := @right code [a] more o h
  simpa using rest

end Has

namespace Machine

variable {p : Program} {f : Fragment} {m : Machine} {a : Asm}

theorem decode_at (holds : p.Holds f) {offset : Nat} (stands : At f.code offset a) :
    ∃ n, a.Operand p.chunk.constants.toList n ∧
      Instruction.decode p.chunk.code offset = .ok ⟨a.op, n⟩ := by
  obtain ⟨before, after, split, rfl⟩ := stands
  have code := holds.code
  rw [split] at code
  obtain ⟨first, rest, bytes, assembles, last⟩ := code.split
  obtain ⟨encoded, more, rfl, encodes, _⟩ := last
  obtain ⟨n, operand, decode⟩ := encodes.decode bytes
  rw [assembles.length] at decode
  exact ⟨n, operand, decode⟩

/-- A machine at an instruction of a fragment fetches and executes that instruction. -/
theorem fetch_at (holds : p.Holds f) (stands : At f.code m.ip a) :
    (∃ n, m.fetch p.chunk = .ready ⟨a.op, n⟩ ∧ m.execute p.chunk ⟨a.op, n⟩ = a.step m) ∨
      ∃ fault, m.fetch p.chunk = .refused a.op.toByte fault ∧ a.step m = .fault fault m := by
  obtain ⟨n, operand, decode⟩ := decode_at holds stands
  simp only [fetch, decode, step]
  split
  · exact .inr ⟨_, rfl, rfl⟩
  · split
    · exact .inr ⟨_, rfl, rfl⟩
    · split
      · exact .inr ⟨_, rfl, rfl⟩
      · exact .inl ⟨n, rfl, perform_eq operand _⟩

/-- Lines are kept in the order in which they are printed. -/
def recorder : Host (List Text) where
  write _ line lines := (.ok (), lines ++ [line])

theorem runFrom_at (holds : p.Holds f) (stands : At f.code m.ip a) (fuel : Nat)
    (lines : List Text) :
    runFrom recorder p (fuel + 1) m lines =
      match a.step m with
      | .next m' => runFrom recorder p fuel m' lines
      | .print line m' => runFrom recorder p fuel m' (lines ++ [line])
      | .finish m' => (.finished, m', lines)
      | .fault fault m' => (.failed (.locate p m.ip a.op.toByte fault), m', lines) := by
  rcases fetch_at holds stands with ⟨n, fetched, executed⟩ | ⟨fault, refused, stopped⟩
  · simp only [runFrom, fetched, executed]
    cases a.step m <;> rfl
  · simp only [runFrom, refused, stopped]

end Machine

end StackScript
