import StackScript.Proofs.Machine.Shift
import StackScript.Proofs.Machine.Trail

/-! Runs under other bounds. No instruction looks at the count, the limit or the cap; only the
checks before it do. Two runs that differ in nothing else therefore go side by side for as long
as the checks come out alike. -/

namespace StackScript

/-- A host that learns the lines, and what there is to see before an instruction, but nothing of
the bounds. -/
def Host.listening {σ : Type} (write : Text → σ → Except WriteFault Unit × σ)
    (look : Machine.Glance → σ → σ) : Host σ where
  write _ line s := write line s
  trace p m i s := look ⟨m.ip, i.op, p.chunk.lineAt m.ip, m.stack⟩ s

namespace Machine

def under (count limit cap : Nat) (m : Machine) : Machine := { m with count, limit, maxStack := cap }

section Effects

variable {c : Chunk} {m : Machine} {k l cap : Nat}

theorem congruence_under (k l cap : Nat) : Congruence fun m m' => m' = m.under k l cap where
  stack := by
    rintro m _ rfl
    rfl
  global := by
    rintro m _ x rfl
    rfl
  restack := by
    rintro m _ values rfl
    rfl
  assign := by
    rintro m _ x v rfl
    rfl
  jumpBy := by
    rintro m _ d rfl
    rfl
  back := by
    rintro m _ d rfl _
    rfl

theorem execute_under (c : Chunk) (i : Instruction) (m : Machine) (k l cap : Nat) :
    (m.under k l cap).execute c i = (m.execute c i).map (under (k + 1) l cap) := by
  have related : (m.execute c i).Related (fun m m' => m' = m.under (k + 1) l cap)
      ((m.under k l cap).execute c i) := (congruence_under (k + 1) l cap).execute i rfl rfl rfl
  exact related.eq_map

theorem execute_keeps (c : Chunk) (i : Instruction) (m : Machine) :
    (m.execute c i).machine = (m.execute c i).machine.under (m.count + 1) m.limit m.maxStack := by
  have same : m.execute c i = (m.execute c i).map (under (m.count + 1) m.limit m.maxStack) :=
    execute_under c i m m.count m.limit m.maxStack
  have left := congrArg Effect.machine same
  rwa [Effect.machine_map] at left

end Effects

section Checks

variable {c : Chunk} {m : Machine} {i : Instruction}

theorem ready_iff : m.fetch c = .ready i ↔
    Instruction.decode c.code m.ip = .ok i ∧ (m.limit = 0 ∨ m.count < m.limit) ∧
      i.op.needs ≤ m.stack.size ∧ (i.op.grows = true → m.stack.size < m.maxStack) := by
  unfold fetch
  cases Instruction.decode c.code m.ip with
  | error e => cases e <;> simp
  | ok j => grind

/-- An instruction that passes the checks but the last one. -/
structure Overflows (c : Chunk) (m : Machine) (i : Instruction) : Prop where
  decoded : Instruction.decode c.code m.ip = .ok i
  allowed : m.limit = 0 ∨ m.count < m.limit
  operands : i.op.needs ≤ m.stack.size
  grows : i.op.grows = true
  full : m.stack.size = m.maxStack

theorem Overflows.refused (spill : Overflows c m i) :
    m.fetch c = .refused i.op.toByte (.stackOverflow m.maxStack) := by
  obtain ⟨decoded, allowed, operands, grows, full⟩ := spill
  unfold fetch
  rw [decoded]
  grind

end Checks

section Heights

variable {c : Chunk} {m : Machine}

theorem height_binary (f : Value → Value → Except OperatorFault Value) (enough : 2 ≤ m.stack.size) :
    (m.binary f).machine.stack.size ≤ m.stack.size := by
  unfold binary
  dsimp only
  split
  · simp only [Effect.machine, size_push, size_drop]
    omega
  · simp only [Effect.machine, size_drop]
    omega

theorem height_unary (f : Value → Except OperatorFault Value) (enough : 1 ≤ m.stack.size) :
    (m.unary f).machine.stack.size ≤ m.stack.size := by
  unfold unary
  dsimp only
  split
  · simp only [Effect.machine, size_push, size_drop]
    omega
  · simp only [Effect.machine, size_drop]
    omega

theorem height_withName {f : Text → Machine → Effect} {height : Nat} (index : Nat)
    (low : m.stack.size ≤ height) (bound : ∀ name, (f name m).machine.stack.size ≤ height) :
    (m.withName c index f).machine.stack.size ≤ height := by
  unfold withName
  split
  · exact low
  · exact bound _
  · exact low

theorem height_perform (i : Instruction) (enough : i.op.needs ≤ m.stack.size) :
    (m.perform c i).machine.stack.size ≤ m.stack.size + i.op.grows.toNat := by
  obtain ⟨op, n⟩ := i
  cases op with
  | pushNone | pushTrue | pushFalse => exact Nat.le_of_eq (size_push _ m)
  | add | subtract | multiply | divide | equals | notEquals => exact height_binary _ enough
  | less | lessEquals | greater | greaterEquals => exact height_binary _ enough
  | negate => exact height_unary Value.negate enough
  | not => exact height_unary (fun v => .ok v.not) enough
  | finish | jump => exact Nat.le_refl _
  | pop | print =>
    change m.drop.stack.size ≤ _
    rw [size_drop]
    exact Nat.sub_le _ 1
  | ternary =>
    have enough : 3 ≤ m.stack.size := enough
    simp only [perform, select, Effect.machine, size_push, size_drop, Opcode.grows, Bool.toNat_false]
    omega
  | constant =>
    simp only [perform]
    split
    · exact Nat.le_of_eq (size_push _ m)
    · exact Nat.le_add_right _ 1
  | defGlobal =>
    refine height_withName n (Nat.le_refl _) fun name => ?_
    change m.drop.stack.size ≤ _
    rw [size_drop]
    exact Nat.sub_le _ 1
  | getGlobal =>
    refine height_withName n (Nat.le_add_right _ 1) fun name => ?_
    unfold getGlobal
    split
    · exact Nat.le_of_eq (size_push _ m)
    · exact Nat.le_add_right _ 1
  | setGlobal =>
    refine height_withName n (Nat.le_refl _) fun name => ?_
    unfold setGlobal
    split <;> exact Nat.le_refl _
  | getLocal =>
    simp only [perform, getLocal]
    split
    · exact Nat.le_of_eq (size_push _ m)
    · exact Nat.le_add_right _ 1
  | setLocal =>
    simp only [perform, setLocal]
    split
    · exact Nat.le_of_eq Array.size_setIfInBounds
    · exact Nat.le_refl _
  | jumpFalse =>
    simp only [perform]
    split <;> exact Nat.le_refl _
  | loop =>
    simp only [perform, loopBack]
    split <;> exact Nat.le_refl _

theorem height_execute {i : Instruction} (fetched : m.fetch c = .ready i)
    (fits : m.stack.size ≤ m.maxStack) : (m.execute c i).machine.stack.size ≤ m.maxStack := by
  obtain ⟨-, -, enough, room⟩ := ready_iff.1 fetched
  have bound := @height_perform c { m with ip := m.ip + i.size, count := m.count + 1 } i enough
  refine Nat.le_trans bound ?_
  cases grows : i.op.grows with
  | true => exact room grows
  | false => exact fits

end Heights

section Trails

variable {σ : Type} {host : Host σ} {p : Program} {n : Nat} {x y : Machine × σ}

theorem Step.effect (step : Step host p x y) :
    ∃ i, x.1.fetch p.chunk = .ready i ∧ y.1 = (x.1.execute p.chunk i).machine := by
  cases step with
  | next fetched executed => exact ⟨_, fetched, by rw [executed]; rfl⟩
  | print fetched executed _ => exact ⟨_, fetched, by rw [executed]; rfl⟩

theorem Steps.keeps (steps : Steps host p n x y) :
    y.1 = y.1.under (x.1.count + n) x.1.limit x.1.maxStack := by
  induction steps with
  | none => rfl
  | @cons n x y z step _ ih =>
    obtain ⟨i, -, left⟩ := step.effect
    have kept := execute_keeps p.chunk i x.1
    rw [← left] at kept
    rw [kept] at ih
    rw [Nat.add_comm n, ← Nat.add_assoc]
    exact ih

theorem Steps.height (steps : Steps host p n x y) (fits : x.1.stack.size ≤ x.1.maxStack) :
    y.1.stack.size ≤ x.1.maxStack := by
  induction steps with
  | none => exact fits
  | @cons n x y z step _ ih =>
    obtain ⟨i, fetched, left⟩ := step.effect
    have kept := execute_keeps p.chunk i x.1
    have low := height_execute fetched fits
    rw [← left] at kept low
    have cap : y.1.maxStack = x.1.maxStack := by rw [kept]; rfl
    rw [← cap]
    exact ih (cap ▸ low)

variable {write : Text → σ → Except WriteFault Unit × σ} {look : Glance → σ → σ} {k l cap : Nat}

theorem Step.under (step : Step (.listening write look) p x y)
    (same : (x.1.under k l cap).fetch p.chunk = x.1.fetch p.chunk) :
    Step (.listening write look) p (x.1.under k l cap, x.2) (y.1.under (k + 1) l cap, y.2) := by
  cases step with
  | next fetched executed =>
    exact .next (same.trans fetched) (by rw [execute_under, executed]; rfl)
  | print fetched executed written =>
    exact .print (same.trans fetched) (by rw [execute_under, executed]; rfl) written

theorem Stops.under {r : Ending × Machine × σ} (stops : Stops (.listening write look) p x r)
    (same : (x.1.under k l cap).fetch p.chunk = x.1.fetch p.chunk) :
    ∃ n, Stops (.listening write look) p (x.1.under k l cap, x.2)
      (r.1, r.2.1.under n l cap, r.2.2) := by
  cases stops with
  | ended fetched => exact ⟨k, .ended (same.trans fetched)⟩
  | refused fetched => exact ⟨k, .refused (same.trans fetched)⟩
  | finish fetched executed =>
    exact ⟨k + 1, .finish (same.trans fetched) (by rw [execute_under, executed]; rfl)⟩
  | fault fetched executed =>
    exact ⟨k + 1, .fault (same.trans fetched) (by rw [execute_under, executed]; rfl)⟩
  | write fetched executed written =>
    exact ⟨k + 1, .write (same.trans fetched) (by rw [execute_under, executed]; rfl) written⟩

/-- The same trail under other bounds, if none of its instructions is refused there. -/
theorem Steps.under (steps : Steps (.listening write look) p n x y)
    (same : ∀ j z i, j < n → Steps (.listening write look) p j x z →
      z.1.fetch p.chunk = .ready i → (z.1.under (k + j) l cap).fetch p.chunk = .ready i) :
    Steps (.listening write look) p n (x.1.under k l cap, x.2) (y.1.under (k + n) l cap, y.2) := by
  induction steps generalizing k with
  | none x => exact .none _
  | @cons n x y z step rest ih =>
    obtain ⟨i, fetched, -⟩ := step.effect
    have alike := same 0 x i (Nat.zero_lt_succ n) (.none x) fetched
    have later := @ih (k + 1) fun j w i before steps fetched => by
      rw [Nat.add_assoc, Nat.add_comm 1]
      exact same (j + 1) w i (Nat.succ_lt_succ before) (.cons step steps) fetched
    rw [Nat.add_assoc, Nat.add_comm 1] at later
    exact .cons (step.under (alike.trans fetched.symm)) later

/-- What a run shows: how it ended, the globals, and what became of its surroundings. -/
def shown (r : Ending × Machine × σ) : Ending × Globals × σ := (r.1, r.2.1.globals, r.2.2)

theorem shown_run (host : Host σ) (fuel : Nat) (p : Program) (m : Machine) (s : σ) :
    shown (run host fuel p m s) = shown (runFrom host p fuel (m.load p) s) := by
  rw [run_eq_cleared]
  rcases runFrom host p fuel (m.load p) s with ⟨_ | _ | _, _, _⟩
  all_goals rfl

/-- A run that is fetched the same way under other bounds shows the same there. -/
theorem shown_under (x : Machine × σ) (k l cap fuel : Nat)
    (same : ∀ n z, Steps (.listening write look) p n x z →
      (z.1.under (k + n) l cap).fetch p.chunk = z.1.fetch p.chunk) :
    shown (runFrom (.listening write look) p fuel (x.1.under k l cap) x.2) =
      shown (runFrom (.listening write look) p fuel x.1 x.2) := by
  have along {n : Nat} {z : Machine × σ} (steps : Steps (.listening write look) p n x z) :=
    steps.under fun j w i _ before fetched => (same j w before).trans fetched
  rcases runFrom_cases (.listening write look) p fuel x with
    ⟨y, steps, ran⟩ | ⟨n, short, y, steps, stops⟩
  · have there := runFrom_steps (along steps) 0
    rw [Nat.add_zero] at there
    rw [ran, there]
    rfl
  · obtain ⟨count, stopped⟩ := stops.under (same n y steps)
    obtain ⟨rest, rfl⟩ : ∃ rest, fuel = n + (rest + 1) := ⟨fuel - n - 1, by omega⟩
    have there := (runFrom_steps (along steps) (rest + 1)).trans (runFrom_stops stopped rest)
    rw [there]
    rfl

end Trails

end Machine

end StackScript
