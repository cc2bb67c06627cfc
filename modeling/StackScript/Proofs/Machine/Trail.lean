import StackScript.Machine.Run

/-! Runs as trails. A run goes from one stage to the next, where a stage is a machine with what
surrounds it, until it comes to a stage where it stops. What holds of a run in any
surroundings is told here once, so that a property of runs is one of a step and one of a stop. -/

namespace StackScript.Machine

variable {σ : Type}

inductive Step (host : Host σ) (p : Program) : Machine × σ → Machine × σ → Prop where
  | next {m m' : Machine} {s : σ} {i : Instruction} : m.fetch p.chunk = .ready i →
      m.execute p.chunk i = .next m' → Step host p (m, s) (m', host.trace p m i s)
  | print {m m' : Machine} {s s' : σ} {i : Instruction} {line : Text} :
      m.fetch p.chunk = .ready i → m.execute p.chunk i = .print line m' →
      host.write m' line (host.trace p m i s) = (.ok (), s') → Step host p (m, s) (m', s')

inductive Steps (host : Host σ) (p : Program) : Nat → Machine × σ → Machine × σ → Prop where
  | none (x : Machine × σ) : Steps host p 0 x x
  | cons {n : Nat} {x y z : Machine × σ} : Step host p x y → Steps host p n y z →
      Steps host p (n + 1) x z

/-- A stage where a run stops, and how it ends there. -/
inductive Stops (host : Host σ) (p : Program) : Machine × σ → Ending × Machine × σ → Prop where
  | ended {m : Machine} {s : σ} : m.fetch p.chunk = .ended → Stops host p (m, s) (.finished, m, s)
  | refused {m : Machine} {s : σ} {op : UInt8} {fault : MachineFault} :
      m.fetch p.chunk = .refused op fault →
      Stops host p (m, s) (.failed (.locate p m.ip op fault), m, s)
  | finish {m m' : Machine} {s : σ} {i : Instruction} : m.fetch p.chunk = .ready i →
      m.execute p.chunk i = .finish m' →
      Stops host p (m, s) (.finished, m', host.trace p m i s)
  | fault {m m' : Machine} {s : σ} {i : Instruction} {fault : MachineFault} :
      m.fetch p.chunk = .ready i → m.execute p.chunk i = .fault fault m' →
      Stops host p (m, s)
        (.failed (.locate p m.ip i.op.toByte fault), m', host.trace p m i s)
  | write {m m' : Machine} {s s' : σ} {i : Instruction} {line : Text} {e : WriteFault} :
      m.fetch p.chunk = .ready i → m.execute p.chunk i = .print line m' →
      host.write m' line (host.trace p m i s) = (.error e, s') →
      Stops host p (m, s) (.failed (writeError p m.ip e), m', s')

variable {host : Host σ} {p : Program} {n k fuel : Nat} {x y z : Machine × σ}
  {r : Ending × Machine × σ}

theorem step_or_stops (host : Host σ) (p : Program) (x : Machine × σ) :
    (∃ y, Step host p x y) ∨ ∃ r, Stops host p x r := by
  obtain ⟨m, s⟩ := x
  cases fetched : m.fetch p.chunk with
  | ended => exact .inr ⟨_, .ended fetched⟩
  | refused op fault => exact .inr ⟨_, .refused fetched⟩
  | ready i =>
    cases executed : m.execute p.chunk i with
    | next m' => exact .inl ⟨_, .next fetched executed⟩
    | finish m' => exact .inr ⟨_, .finish fetched executed⟩
    | fault fault m' => exact .inr ⟨_, .fault fetched executed⟩
    | print line m' =>
      rcases written : host.write m' line (host.trace p m i s) with ⟨_ | _, s'⟩
      · exact .inr ⟨_, .write fetched executed written⟩
      · exact .inl ⟨_, .print fetched executed written⟩

theorem runFrom_step (step : Step host p x y) (fuel : Nat) :
    runFrom host p (fuel + 1) x.1 x.2 = runFrom host p fuel y.1 y.2 := by
  cases step with
  | next fetched executed => simp only [runFrom, fetched, executed]
  | print fetched executed written => simp only [runFrom, fetched, executed, written]

theorem runFrom_stops (stops : Stops host p x r) (fuel : Nat) :
    runFrom host p (fuel + 1) x.1 x.2 = r := by
  cases stops with
  | ended fetched => simp only [runFrom, fetched]
  | refused fetched => simp only [runFrom, fetched]
  | finish fetched executed => simp only [runFrom, fetched, executed]
  | fault fetched executed => simp only [runFrom, fetched, executed]
  | write fetched executed written => simp only [runFrom, fetched, executed, written]

theorem runFrom_steps (steps : Steps host p n x y) (fuel : Nat) :
    runFrom host p (n + fuel) x.1 x.2 = runFrom host p fuel y.1 y.2 := by
  induction steps with
  | none => rw [Nat.zero_add]
  | cons step _ ih => rw [Nat.add_right_comm, runFrom_step step, ih]

theorem Steps.split (steps : Steps host p n x z) (before : k ≤ n) :
    ∃ y, Steps host p k x y ∧ Steps host p (n - k) y z := by
  induction steps generalizing k with
  | none x =>
    obtain rfl : k = 0 := by omega
    exact ⟨x, .none x, .none x⟩
  | @cons n x y z step rest ih =>
    cases k with
    | zero => exact ⟨x, .none x, .cons step rest⟩
    | succ k =>
      obtain ⟨w, first, last⟩ := ih (Nat.le_of_succ_le_succ before)
      exact ⟨w, .cons step first, by rwa [Nat.add_sub_add_right]⟩

theorem runFrom_cases (host : Host σ) (p : Program) (fuel : Nat) (x : Machine × σ) :
    (∃ y, Steps host p fuel x y ∧ runFrom host p fuel x.1 x.2 = (.unfinished, y)) ∨
      ∃ n < fuel, ∃ y, Steps host p n x y ∧ Stops host p y (runFrom host p fuel x.1 x.2) := by
  induction fuel generalizing x with
  | zero => exact .inl ⟨x, .none x, rfl⟩
  | succ fuel ih =>
    rcases step_or_stops host p x with ⟨y, step⟩ | ⟨r, stops⟩
    · rw [runFrom_step step]
      rcases ih y with ⟨z, steps, run⟩ | ⟨n, short, z, steps, stops⟩
      · exact .inl ⟨z, .cons step steps, run⟩
      · exact .inr ⟨n + 1, by omega, z, .cons step steps, stops⟩
    · rw [runFrom_stops stops]
      exact .inr ⟨0, by omega, x, .none x, stops⟩

theorem Stops.ne_unfinished (stops : Stops host p x r) : r.1 ≠ .unfinished := by
  cases stops with
  | _ => simp

/-- What a caller is left with: a failed run leaves an empty stack. -/
def cleared : Ending × Machine × σ → Ending × Machine × σ
  | (.failed e, m, s) => (.failed e, { m with stack := #[] }, s)
  | r => r

theorem run_eq_cleared (host : Host σ) (fuel : Nat) (p : Program) (m : Machine) (s : σ) :
    run host fuel p m s = cleared (runFrom host p fuel (m.load p) s) := by
  unfold run
  rcases runFrom host p fuel (m.load p) s with ⟨_ | _ | _, _, _⟩
  all_goals rfl

theorem stops_of_failed {m m' : Machine} {s s' : σ} {e : RuntimeError}
    (failed : run host fuel p m s = (.failed e, m', s')) :
    ∃ n x m'', Steps host p n (m.load p, s) x ∧ Stops host p x (.failed e, m'', s') := by
  rw [run_eq_cleared] at failed
  rcases runFrom_cases host p fuel (m.load p, s) with ⟨y, _, ran⟩ | ⟨n, _, y, steps, stops⟩
  · rw [ran] at failed
    cases failed
  · generalize runFrom host p fuel (m.load p, s).1 (m.load p, s).2 = r at failed stops
    obtain ⟨_ | _ | _, m'', _⟩ := r
    · cases failed
    · cases failed
      exact ⟨n, y, m'', steps, stops⟩
    · cases failed

end StackScript.Machine
