import StackScript.Machine.Step

/-! What no instruction tells apart. An instruction takes values from the stack and from the globals,
puts values there, and moves the pointer. So it keeps every relation of machines which have the same
values at hand and which stay related when the same is done to both. -/

namespace StackScript

namespace Effect

def machine : Effect → Machine
  | .next m | .print _ m | .finish m | .fault _ m => m

/-- The machine after a step, as it would be elsewhere. -/
def map (f : Machine → Machine) : Effect → Effect
  | .next m => .next (f m)
  | .print line m => .print line (f m)
  | .finish m => .finish (f m)
  | .fault e m => .fault e (f m)

inductive Related (M : Machine → Machine → Prop) : Effect → Effect → Prop where
  | next {m m' : Machine} : M m m' → Related M (.next m) (.next m')
  | print {m m' : Machine} (line : Text) : M m m' → Related M (.print line m) (.print line m')
  | finish {m m' : Machine} : M m m' → Related M (.finish m) (.finish m')
  | fault {m m' : Machine} (f : MachineFault) : M m m' → Related M (.fault f m) (.fault f m')

variable {M : Machine → Machine → Prop} {f : Machine → Machine} {e e' : Effect}

theorem Related.machine (h : e.Related M e') : M e.machine e'.machine := by
  cases h with
  | next h | print _ h | finish h | fault _ h => exact h

theorem Related.eq_map (h : e.Related (fun m m' => m' = f m) e') : e' = e.map f := by
  cases h with
  | next same | print _ same | finish same | fault _ same =>
    subst same
    rfl

@[simp] theorem machine_map (f : Machine → Machine) (e : Effect) : (e.map f).machine = f e.machine := by
  cases e <;> rfl

end Effect

namespace Machine

/-- Related machines have the same values at hand, and stay related when the same is done to both. -/
structure Congruence (M : Machine → Machine → Prop) : Prop where
  stack {m m' : Machine} : M m m' → m.stack = m'.stack
  global {m m' : Machine} (x : Text) : M m m' → m.globals[x]? = m'.globals[x]?
  restack {m m' : Machine} (values : Array Value) : M m m' →
    M { m with stack := values } { m' with stack := values }
  assign {m m' : Machine} (x : Text) (v : Value) : M m m' →
    M { m with globals := m.globals.insert x v } { m' with globals := m'.globals.insert x v }
  jumpBy {m m' : Machine} (n : Nat) : M m m' → M (m.jumpBy n) (m'.jumpBy n)
  back {m m' : Machine} {n : Nat} : M m m' → n ≤ m.ip →
    M { m with ip := m.ip - n } { m' with ip := m'.ip - n }

namespace Congruence

variable {M : Machine → Machine → Prop} {m m' : Machine}

theorem top (kept : Congruence M) (h : M m m') : m.top = m'.top := by
  rw [Machine.top, Machine.top, kept.stack h]

theorem push (kept : Congruence M) (h : M m m') (v : Value) : M (m.push v) (m'.push v) := by
  unfold Machine.push
  rw [← kept.stack h]
  exact kept.restack _ h

theorem drop (kept : Congruence M) (h : M m m') : M m.drop m'.drop := by
  unfold Machine.drop
  rw [← kept.stack h]
  exact kept.restack _ h

theorem unary (kept : Congruence M) (h : M m m') (f : Value → Except OperatorFault Value) :
    (m.unary f).Related M (m'.unary f) := by
  have dropped := kept.drop h
  unfold Machine.unary
  dsimp only
  rw [← kept.top h]
  cases f m.top with
  | ok v => exact .next (kept.push dropped v)
  | error e => exact .fault _ dropped

theorem binary (kept : Congruence M) (h : M m m') (f : Value → Value → Except OperatorFault Value) :
    (m.binary f).Related M (m'.binary f) := by
  have once := kept.drop h
  have twice := kept.drop once
  unfold Machine.binary
  dsimp only
  rw [← kept.top h, ← kept.top once]
  cases f m.drop.top m.top with
  | ok v => exact .next (kept.push twice v)
  | error e => exact .fault _ twice

theorem select (kept : Congruence M) (h : M m m') : m.select.Related M m'.select := by
  have once := kept.drop h
  have twice := kept.drop once
  unfold Machine.select
  dsimp only
  rw [← kept.top h, ← kept.top once, ← kept.top twice]
  exact .next (kept.push (kept.drop twice) _)

theorem defineGlobal (kept : Congruence M) (h : M m m') (x : Text) :
    (m.defineGlobal x).Related M (m'.defineGlobal x) := by
  unfold Machine.defineGlobal
  dsimp only
  rw [← kept.top h]
  exact .next (kept.assign x _ (kept.drop h))

theorem getGlobal (kept : Congruence M) (h : M m m') (x : Text) :
    (m.getGlobal x).Related M (m'.getGlobal x) := by
  unfold Machine.getGlobal
  rw [← kept.global x h]
  cases m.globals[x]? with
  | some v => exact .next (kept.push h v)
  | none => exact .fault _ h

theorem setGlobal (kept : Congruence M) (h : M m m') (x : Text) :
    (m.setGlobal x).Related M (m'.setGlobal x) := by
  unfold Machine.setGlobal
  rw [Std.TreeMap.contains_eq_isSome_getElem?, Std.TreeMap.contains_eq_isSome_getElem?,
    ← kept.global x h, ← kept.top h]
  cases m.globals[x]? with
  | some v => exact .next (kept.assign x _ h)
  | none => exact .fault _ h

theorem getLocal (kept : Congruence M) (h : M m m') (slot : Nat) :
    (m.getLocal slot).Related M (m'.getLocal slot) := by
  unfold Machine.getLocal
  rw [← kept.stack h]
  cases m.stack[slot]? with
  | some v => exact .next (kept.push h v)
  | none => exact .fault _ h

theorem setLocal (kept : Congruence M) (h : M m m') (slot : Nat) :
    (m.setLocal slot).Related M (m'.setLocal slot) := by
  unfold Machine.setLocal
  rw [← kept.stack h, ← kept.top h]
  split
  · exact .next (kept.restack _ h)
  · exact .fault _ h

theorem jumpFalse (kept : Congruence M) (h : M m m') (n : Nat) :
    M (if m.top.truthy then m else m.jumpBy n) (if m'.top.truthy then m' else m'.jumpBy n) := by
  rw [← kept.top h]
  split
  · exact h
  · exact kept.jumpBy n h

theorem loopBack (kept : Congruence M) (h : M m m') {n : Nat}
    (near : m.ip = m'.ip ∨ n ≤ m.ip ∧ n ≤ m'.ip) : (m.loopBack n).Related M (m'.loopBack n) := by
  unfold Machine.loopBack
  by_cases inside : n ≤ m.ip
  · have inside' : n ≤ m'.ip := by omega
    rw [if_neg (Nat.not_lt.2 inside), if_neg (Nat.not_lt.2 inside')]
    exact .next (kept.back h inside)
  · have same : m.ip = m'.ip := by omega
    have outside : m.ip < n := Nat.lt_of_not_le inside
    rw [← same, if_pos outside, if_pos outside]
    exact .fault _ h

/-- An instruction that takes no constant and does not jump back, or finds the same constants and the
same place to jump back from. -/
theorem perform (kept : Congruence M) (h : M m m') {c c' : Chunk} (i : Instruction)
    (constants : c.constants = c'.constants) (loops : i.op = .loop → m.ip = m'.ip) :
    (m.perform c i).Related M (m'.perform c' i) := by
  obtain ⟨op, n⟩ := i
  have named {k : Text → Machine → Effect} (same : ∀ x, (k x m).Related M (k x m')) :
      (m.withName c n k).Related M (m'.withName c' n k) := by
    unfold withName
    rw [← constants]
    split
    · exact .fault _ h
    · exact same _
    · exact .fault _ h
  cases op with
  | constant =>
    simp only [Machine.perform, ← constants]
    cases c.constants[n]? with
    | some v => exact .next (kept.push h v)
    | none => exact .fault _ h
  | pushNone | pushTrue | pushFalse => exact .next (kept.push h _)
  | pop => exact .next (kept.drop h)
  | print =>
    simp only [Machine.perform, ← kept.top h]
    exact .print _ (kept.drop h)
  | finish => exact .finish h
  | add | subtract | multiply | divide | equals | notEquals => exact kept.binary h _
  | less | lessEquals | greater | greaterEquals => exact kept.binary h _
  | negate => exact kept.unary h Value.negate
  | not => exact kept.unary h fun v => .ok v.not
  | ternary => exact kept.select h
  | defGlobal => exact named (kept.defineGlobal h)
  | getGlobal => exact named (kept.getGlobal h)
  | setGlobal => exact named (kept.setGlobal h)
  | getLocal => exact kept.getLocal h n
  | setLocal => exact kept.setLocal h n
  | jump => exact .next (kept.jumpBy n h)
  | jumpFalse => exact .next (kept.jumpFalse h n)
  | loop => exact kept.loopBack h (.inl (loops rfl))

theorem execute (kept : Congruence M) {c c' : Chunk} (i : Instruction)
    (constants : c.constants = c'.constants) (same : m.ip = m'.ip)
    (h : M { m with ip := m.ip + i.size, count := m.count + 1 }
      { m' with ip := m'.ip + i.size, count := m'.count + 1 }) :
    (m.execute c i).Related M (m'.execute c' i) :=
  kept.perform h i constants fun _ => congrArg (· + i.size) same

end Congruence

end Machine

end StackScript
