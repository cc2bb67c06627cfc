import StackScript.Proofs.Machine.Symbolic

/-! Runs of symbolic code as sequences of moves between configurations, which are machines
with the lines printed so far, and what they say about the runs of a program. -/

namespace StackScript

open Asm

structure Config where
  machine : Machine
  lines : List Text := []

namespace Config

/-- One step that goes on. -/
inductive Move (code : List Asm) : Config → Config → Prop where
  | next {a : Asm} {m m' : Machine} {lines : List Text} : At code m.ip a → a.step m = .next m' →
      Move code ⟨m, lines⟩ ⟨m', lines⟩
  | print {a : Asm} {m m' : Machine} {line : Text} {lines : List Text} : At code m.ip a →
      a.step m = .print line m' → Move code ⟨m, lines⟩ ⟨m', lines ++ [line]⟩

inductive Moves (code : List Asm) : Nat → Config → Config → Prop where
  | none (c : Config) : Moves code 0 c c
  | cons {n : Nat} {c c₁ c₂ : Config} : Move code c c₁ → Moves code n c₁ c₂ →
      Moves code (n + 1) c c₂

variable {code : List Asm} {m n : Nat} {c c₁ c₂ : Config}

theorem Moves.trans (h : Moves code m c c₁) (h' : Moves code n c₁ c₂) :
    Moves code (m + n) c c₂ := by
  induction h with
  | none => rwa [Nat.zero_add]
  | cons move _ ih =>
    rw [Nat.add_right_comm]
    exact .cons move (ih h')

theorem Moves.left (h : Moves code n c c₁) (rest : List Asm) : Moves (code ++ rest) n c c₁ := by
  induction h with
  | none => exact .none _
  | cons move _ ih =>
    refine .cons ?_ ih
    cases move with
    | next stands step => exact .next (stands.left rest) step
    | print stands step => exact .print (stands.left rest) step

theorem Moves.one (h : Move code c c₁) : Moves code 1 c c₁ := .cons h (.none _)

end Config

namespace Machine

open Config

variable {p : Program} {f : Fragment} {n : Nat} {c c₁ : Config}

theorem runFrom_move (holds : p.Holds f) (move : Move f.code c c₁) (fuel : Nat) :
    runFrom recorder p (fuel + 1) c.machine c.lines =
      runFrom recorder p fuel c₁.machine c₁.lines := by
  cases move with
  | next stands step | print stands step => rw [runFrom_at holds stands, step]

theorem runFrom_moves (holds : p.Holds f) (moves : Moves f.code n c c₁) (fuel : Nat) :
    runFrom recorder p (n + fuel) c.machine c.lines =
      runFrom recorder p fuel c₁.machine c₁.lines := by
  induction moves with
  | none => rw [Nat.zero_add]
  | cons move _ ih => rw [Nat.add_right_comm, runFrom_move holds move, ih]

theorem unfinished_of_moves (holds : p.Holds f) (moves : Moves f.code n c c₁) {fuel : Nat}
    (short : fuel ≤ n) : (runFrom recorder p fuel c.machine c.lines).1 = .unfinished := by
  induction moves generalizing fuel with
  | none =>
    obtain rfl : fuel = 0 := Nat.le_zero.1 short
    rfl
  | cons move _ ih =>
    cases fuel with
    | zero => rfl
    | succ fuel =>
      rw [runFrom_move holds move]
      exact ih (Nat.le_of_succ_le_succ short)

theorem runFrom_add {σ : Type} (host : Host σ) (p : Program) (fuel more : Nat) (m : Machine) (s : σ)
    (ended : (runFrom host p fuel m s).1 ≠ .unfinished) :
    runFrom host p (fuel + more) m s = runFrom host p fuel m s := by
  induction fuel generalizing m s with
  | zero => exact absurd rfl ended
  | succ fuel ih =>
    rw [Nat.add_right_comm]
    cases fetched : m.fetch p.chunk with
    | ended | refused op fault => simp only [runFrom, fetched]
    | ready i =>
      cases executed : m.execute p.chunk i with
      | next m' =>
        simp only [runFrom, fetched, executed] at ended ⊢
        exact ih _ _ ended
      | finish m' | fault fault m' => simp only [runFrom, fetched, executed]
      | print line m' =>
        rcases written : host.write m' line (host.trace p m i s) with ⟨_ | e, s'⟩
        · simp only [runFrom, fetched, executed, written]
        · simp only [runFrom, fetched, executed, written] at ended ⊢
          exact ih _ _ ended

theorem runFrom_unique {σ : Type} (host : Host σ) (p : Program) (fuel fuel' : Nat) (m : Machine)
    (s : σ) (ended : (runFrom host p fuel m s).1 ≠ .unfinished)
    (ended' : (runFrom host p fuel' m s).1 ≠ .unfinished) :
    runFrom host p fuel m s = runFrom host p fuel' m s := by
  rw [← runFrom_add host p fuel fuel' m s ended, Nat.add_comm, runFrom_add host p fuel' fuel m s ended']

variable {m : Machine} {lines : List Text}

theorem run_ending {σ : Type} (host : Host σ) (p : Program) (fuel : Nat) (m : Machine) (s : σ) :
    (run host fuel p m s).1 = (runFrom host p fuel (m.load p) s).1 := by
  unfold run
  rcases runFrom host p fuel (m.load p) s with ⟨_ | e | _, m', s'⟩
  all_goals rfl

theorem run_unique {σ : Type} {host : Host σ} {fuel fuel' : Nat} {s : σ}
    {r r' : Ending × Machine × σ} (h : run host fuel p m s = r) (h' : run host fuel' p m s = r')
    (ended : r.1 ≠ .unfinished) (ended' : r'.1 ≠ .unfinished) : r = r' := by
  subst h h'
  rw [run_ending] at ended ended'
  unfold run
  rw [runFrom_unique host p fuel fuel' _ s ended ended']

theorem step_finish (unlimited : m.limit = 0) :
    (Asm.plain .finish).step m = .finish (pass (.plain .finish) m) := by
  rcases (Asm.plain .finish).step_cases m with ⟨limited, _⟩ | ⟨few, _⟩ | ⟨full, _⟩ | ⟨_, step⟩
  · rw [unlimited] at limited
    exact absurd limited (Nat.lt_irrefl 0)
  · exact absurd few (Nat.not_lt_zero _)
  · exact absurd full.1 (by decide)
  · exact step

theorem run_finished (holds : p.Holds f) (moves : Moves f.code n ⟨m.load p, lines⟩ c)
    (stands : At f.code c.machine.ip (.plain .finish)) (unlimited : c.machine.limit = 0) :
    run recorder (n + 1) p m lines = (.finished, pass (.plain .finish) c.machine, c.lines) := by
  have ends := runFrom_moves holds moves 1
  rw [runFrom_at holds stands, step_finish unlimited] at ends
  unfold run
  rw [ends]

theorem run_failed (holds : p.Holds f) (moves : Moves f.code n ⟨m.load p, lines⟩ c) {a : Asm}
    {fault : MachineFault} {m' : Machine} (stands : At f.code c.machine.ip a)
    (fails : a.step c.machine = .fault fault m') :
    run recorder (n + 1) p m lines =
      (.failed (.locate p c.machine.ip a.op.toByte fault), { m' with stack := #[] }, c.lines) := by
  have ends := runFrom_moves holds moves 1
  rw [runFrom_at holds stands, fails] at ends
  unfold run
  rw [ends]

theorem run_unfinished (holds : p.Holds f) (moves : Moves f.code n ⟨m.load p, lines⟩ c)
    {fuel : Nat} (short : fuel ≤ n) : (run recorder fuel p m lines).1 = .unfinished := by
  rw [run_ending]
  exact unfinished_of_moves holds moves short

end Machine

end StackScript
