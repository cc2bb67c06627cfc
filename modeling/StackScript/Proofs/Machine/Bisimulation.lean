import StackScript.Proofs.Machine.Bounds

/-! Two runs side by side. Machines that fetch and execute alike, in surroundings that answer alike,
come to the same end. So a run forgets all but the globals and the bounds of the machine that it is
started on, and of the globals it only learns what each name stands for. -/

namespace StackScript

variable {σ τ : Type}

/-- A relation of machines that no instruction of some code can tell apart. -/
structure Bisimulation (c : Chunk) (M : Machine → Machine → Prop) : Prop where
  ip {m m' : Machine} : M m m' → m.ip = m'.ip
  fetch {m m' : Machine} : M m m' → m.fetch c = m'.fetch c
  execute (i : Instruction) {m m' : Machine} : M m m' → (m.execute c i).Related M (m'.execute c i)
  clear {m m' : Machine} : M m m' → M { m with stack := #[] } { m' with stack := #[] }

/-- Hosts that answer related machines alike. -/
structure Host.Relates (host : Host σ) (host' : Host τ) (p : Program)
    (M : Machine → Machine → Prop) (R : σ → τ → Prop) : Prop where
  write (line : Text) {m m' : Machine} {s : σ} {s' : τ} : M m m' → R s s' →
    (host.write m line s).1 = (host'.write m' line s').1 ∧
      R (host.write m line s).2 (host'.write m' line s').2
  trace (i : Instruction) {m m' : Machine} {s : σ} {s' : τ} : M m m' → R s s' →
    R (host.trace p m i s) (host'.trace p m' i s')

structure EndsRelated (M : Machine → Machine → Prop) (R : σ → τ → Prop) (r : Ending × Machine × σ)
    (r' : Ending × Machine × τ) : Prop where
  ending : r.1 = r'.1
  machine : M r.2.1 r'.2.1
  state : R r.2.2 r'.2.2

namespace Machine

theorem bisimulation_eq (c : Chunk) : Bisimulation c Eq where
  ip := fun same => by rw [same]
  fetch := fun same => by rw [same]
  execute i m m' same := by
    subst same
    cases m.execute c i with
    | next => exact .next rfl
    | print line => exact .print line rfl
    | finish => exact .finish rfl
    | fault f => exact .fault f rfl
  clear := fun same => by rw [same]

section

variable {host : Host σ} {host' : Host τ} {p : Program} {M : Machine → Machine → Prop}
  {R : σ → τ → Prop}

theorem runFrom_related (alike : Bisimulation p.chunk M) (answers : host.Relates host' p M R)
    (fuel : Nat) {m m' : Machine} {s : σ} {s' : τ} (machines : M m m') (states : R s s') :
    EndsRelated M R (runFrom host p fuel m s) (runFrom host' p fuel m' s') := by
  induction fuel generalizing m m' s s' with
  | zero => exact ⟨rfl, machines, states⟩
  | succ fuel ih =>
    simp only [runFrom, ← alike.fetch machines, ← alike.ip machines]
    cases m.fetch p.chunk with
    | ended | refused => exact ⟨rfl, machines, states⟩
    | ready i =>
      dsimp only
      have looked := answers.trace i machines states
      have effects := alike.execute i machines
      generalize m.execute p.chunk i = e at effects
      generalize m'.execute p.chunk i = e' at effects
      cases effects with
      | next machines => exact ih machines looked
      | finish machines => exact ⟨rfl, machines, looked⟩
      | fault f machines => exact ⟨rfl, machines, looked⟩
      | @print m₁ m₁' line machines =>
        obtain ⟨answer, states⟩ := answers.write line machines looked
        dsimp only
        revert answer states
        generalize host.write m₁ line (host.trace p m i s) = w
        generalize host'.write m₁' line (host'.trace p m' i s') = w'
        obtain ⟨a, t⟩ := w
        obtain ⟨a', t'⟩ := w'
        rintro rfl states
        cases a with
        | ok => exact ih machines states
        | error e => exact ⟨rfl, machines, states⟩

theorem run_related (alike : Bisimulation p.chunk M) (answers : host.Relates host' p M R)
    (fuel : Nat) {m m' : Machine} {s : σ} {s' : τ} (machines : M (m.load p) (m'.load p))
    (states : R s s') : EndsRelated M R (run host fuel p m s) (run host' fuel p m' s') := by
  have ends := runFrom_related alike answers fuel machines states
  rw [run_eq_cleared, run_eq_cleared]
  revert ends
  generalize runFrom host p fuel (m.load p) s = r
  generalize runFrom host' p fuel (m'.load p) s' = r'
  obtain ⟨ending, m₁, t⟩ := r
  obtain ⟨_, m₁', t'⟩ := r'
  rintro ⟨rfl, machines, states⟩
  cases ending with
  | finished | unfinished => exact ⟨rfl, machines, states⟩
  | failed e => exact ⟨rfl, alike.clear machines, states⟩

end

def keeping (g : Globals) (m : Machine) : Machine := { m with globals := g }

/-- Machines that differ at most in how their globals are kept. -/
inductive SameNames (m : Machine) : Machine → Prop where
  | keeping {g : Globals} : m.globals.Equiv g → SameNames m (m.keeping g)

theorem congruence_sameNames : Congruence SameNames where
  stack := by
    rintro m _ ⟨_⟩
    rfl
  global := by
    rintro m _ x ⟨same⟩
    exact same.getElem?_eq
  restack := by
    rintro m _ values ⟨same⟩
    exact .keeping same
  assign := by
    rintro m _ x v ⟨same⟩
    exact .keeping (same.insert x v)
  jumpBy := by
    rintro m _ d ⟨same⟩
    exact .keeping same
  back := by
    rintro m _ d ⟨same⟩ _
    exact .keeping same

theorem bisimulation_sameNames (c : Chunk) : Bisimulation c SameNames where
  ip := by
    rintro m _ ⟨_⟩
    rfl
  fetch := by
    rintro m _ ⟨_⟩
    rfl
  execute i := by
    rintro m _ ⟨same⟩
    exact congruence_sameNames.execute i rfl rfl (.keeping same)
  clear := by
    rintro m _ ⟨same⟩
    exact .keeping same

/-- Runs in surroundings that learn the lines and the course of the run. Whatever the two machines have
been through, the runs show the same if their globals mean the same and their bounds are the same. -/
theorem run_listening {write : Text → σ → Except WriteFault Unit × σ} {look : Glance → σ → σ}
    {m m' : Machine} (globals : m.globals.Equiv m'.globals) (cap : m.maxStack = m'.maxStack)
    (limit : m.limit = m'.limit) (fuel : Nat) (p : Program) (s : σ) :
    EndsRelated SameNames Eq (run (.listening write look) fuel p m s)
      (run (.listening write look) fuel p m' s) := by
  have answers : (Host.listening write look).Relates (.listening write look) p SameNames Eq := by
    refine ⟨?_, ?_⟩
    · rintro line _ _ s _ _ rfl
      exact ⟨rfl, rfl⟩
    · rintro i m _ s _ ⟨_⟩ rfl
      rfl
  have loaded : m'.load p = (m.load p).keeping m'.globals := by
    simp only [load, resetState, keeping, cap, limit]
  refine run_related (bisimulation_sameNames p.chunk) answers fuel ?_ rfl
  rw [loaded]
  exact .keeping globals

end Machine

end StackScript
