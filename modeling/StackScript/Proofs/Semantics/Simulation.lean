import StackScript.Proofs.Machine.Moves
import StackScript.Proofs.Semantics.Evaluation

/-! Code that simulates an evaluation. The values of the locals in scope lie at the bottom of
the stack, the outermost lowest, and above them the values that are still to be used. Where an
evaluation ends, the code has come to the place behind it; where it fails, so does the code; and
where it runs out of rounds, the code has made at least as many steps. -/

namespace StackScript

open Asm Config

namespace Machine

def pile (m : Machine) : List Value := m.stack.toList.reverse

@[simp] theorem pile_push (v : Value) (m : Machine) : (m.push v).pile = v :: m.pile := by
  simp [push, pile]

@[simp] theorem pile_drop (m : Machine) : m.drop.pile = m.pile.tail := by
  simp [drop, pile, List.tail_reverse]

theorem top_eq_head (m : Machine) : m.top = m.pile.head?.getD .none := by
  rw [top, Array.back?_eq_getElem?, pile, List.head?_reverse, List.getLast?_eq_getElem?]
  simp

theorem size_eq_length (m : Machine) : m.stack.size = m.pile.length := by simp [pile]

end Machine

/-- A place in code, with the locals in scope and the values above them. -/
structure Spot where
  offset : Nat
  locals : List Text
  temps : List Value := []

/-- A configuration at a place stands for the state of an evaluation. -/
structure Spot.Shows (s : Spot) (w : World) (c : Config) : Prop where
  ip : c.machine.ip = s.offset
  names : w.locals.map (·.1) = s.locals
  pile : c.machine.pile = s.temps ++ w.locals.map (·.2)
  globals : c.machine.globals = w.globals
  unlimited : c.machine.limit = 0
  lines : c.lines = w.output.map Value.line

theorem Spot.Shows.size {s : Spot} {w : World} {c : Config} (h : s.Shows w c) :
    c.machine.stack.size = s.temps.length + s.locals.length := by
  rw [Machine.size_eq_length, h.pile, ← h.names]
  simp

namespace Spot.Shows

variable {o : Nat} {names : List Text} {temps : List Value} {w : World} {m : Machine}
  {lines : List Text}

theorem push (h : (Spot.mk o names temps).Shows w ⟨m, lines⟩) (v : Value) :
    (Spot.mk o names (v :: temps)).Shows w ⟨m.push v, lines⟩ := by
  refine ⟨h.ip, h.names, ?_, h.globals, h.unlimited, h.lines⟩
  rw [Machine.pile_push, h.pile]
  rfl

theorem drop {v : Value} (h : (Spot.mk o names (v :: temps)).Shows w ⟨m, lines⟩) :
    (Spot.mk o names temps).Shows w ⟨m.drop, lines⟩ := by
  refine ⟨h.ip, h.names, ?_, h.globals, h.unlimited, h.lines⟩
  rw [Machine.pile_drop, h.pile]
  rfl

theorem top {v : Value} (h : (Spot.mk o names (v :: temps)).Shows w ⟨m, lines⟩) : m.top = v := by
  rw [m.top_eq_head, h.pile]
  rfl

theorem stack (h : (Spot.mk o names temps).Shows w ⟨m, lines⟩) :
    m.stack.toList = (w.locals.map (·.2)).reverse ++ temps.reverse := by
  rw [← List.reverse_append, ← h.pile, Machine.pile, List.reverse_reverse]

end Spot.Shows

/-- Wherever a run comes to, the stack has room for what the next instruction adds. -/
def Roomy (code : List Asm) (c : Config) : Prop :=
  ∀ ⦃n c₁ a cap m⦄, Moves code n c c₁ → At code c₁.machine.ip a →
    a.step c₁.machine ≠ .fault (.stackOverflow cap) m

/-- The next instruction fails, in the state in which the evaluation failed. -/
def Fails (code : List Asm) (fault : MachineFault) (w : World) (c : Config) : Prop :=
  ∃ a m, At code c.machine.ip a ∧ a.step c.machine = .fault fault m ∧ m.globals = w.globals ∧
    c.lines = w.output.map Value.line

variable {code : List Asm} {α β : Type}

def Tracks (code : List Asm) (bound : Nat) (c : Config) (t : α → Spot) :
    EStateM.Result Stop World α → Prop
  | .ok a w => ∃ n c₁, Moves code n c c₁ ∧ (t a).Shows w c₁
  | .error (.fault fault) w => ∃ n c₁, Moves code n c c₁ ∧ Fails code fault w c₁
  | .error .bound _ => ∃ n c₁, bound ≤ n ∧ Moves code n c c₁

/-- The code from one place on does what an evaluation does, up to another place. -/
def Simulates (code : List Asm) (bound : Nat) (s : Spot) (x : Eval α) (t : α → Spot) : Prop :=
  ∀ ⦃w c⦄, s.Shows w c → Roomy code c → Tracks code bound c t (x.run w)

variable {bound : Nat} {c c₁ : Config} {s s₁ : Spot} {t : α → Spot} {u : β → Spot} {x : Eval α}
  {a : Asm}

theorem Roomy.after {n : Nat} (h : Roomy code c) (moves : Moves code n c c₁) : Roomy code c₁ :=
  fun _ _ _ _ _ moves' => h (moves.trans moves')

theorem Tracks.before {n : Nat} {r : EStateM.Result Stop World α} (moves : Moves code n c c₁)
    (h : Tracks code bound c₁ t r) : Tracks code (n + bound) c t r := by
  match r, h with
  | .ok a w, ⟨k, c₂, moves', shows⟩ => exact ⟨_, c₂, moves.trans moves', shows⟩
  | .error (.fault fault) w, ⟨k, c₂, moves', fails⟩ => exact ⟨_, c₂, moves.trans moves', fails⟩
  | .error .bound w, ⟨k, c₂, enough, moves'⟩ =>
    exact ⟨_, c₂, Nat.add_le_add_left enough n, moves.trans moves'⟩

theorem Tracks.weaken {less : Nat} {r : EStateM.Result Stop World α} (h : Tracks code bound c t r)
    (fewer : less ≤ bound) : Tracks code less c t r := by
  match r, h with
  | .ok a w, h => exact h
  | .error (.fault fault) w, h => exact h
  | .error .bound w, ⟨k, c₂, enough, moves⟩ => exact ⟨k, c₂, Nat.le_trans fewer enough, moves⟩

namespace Simulates

theorem weaken {less : Nat} (h : Simulates code bound s x t) (fewer : less ≤ bound) :
    Simulates code less s x t := fun _ _ shows roomy => (h shows roomy).weaken fewer

theorem of_pure {a : α} (same : t a = s) : Simulates code bound s (pure a) t :=
  fun _ c shows _ => ⟨0, c, .none c, same ▸ shows⟩

theorem bind {f : α → Eval β} (first : Simulates code bound s x t)
    (second : ∀ a, Simulates code bound (t a) (f a) u) : Simulates code bound s (x >>= f) u := by
  intro w c shows roomy
  have tracks := first shows roomy
  rw [EStateM.run_bind]
  revert tracks
  cases x.run w with
  | ok a w₁ =>
    rintro ⟨n, c₁, moves, shows₁⟩
    exact ((second a shows₁ (roomy.after moves)).before moves).weaken (Nat.le_add_left _ _)
  | error stop w₁ =>
    cases stop with
    | fault fault => exact id
    | bound => exact id

end Simulates

def Answers (lines : List Text) (t : α → Spot) : EStateM.Result Stop World α → Effect → Prop
  | .ok a w, .next m => (t a).Shows w ⟨m, lines⟩
  | .ok a w, .print line m => (t a).Shows w ⟨m, lines ++ [line]⟩
  | .error (.fault fault) w, .fault fault' m =>
    fault' = fault ∧ m.globals = w.globals ∧ lines = w.output.map Value.line
  | _, _ => False

/-- The place behind an instruction, with the stack as it was before. -/
def Spot.behind (s : Spot) (a : Asm) : Spot := { s with offset := s.offset + a.size }

theorem Spot.Shows.step {w : World} (shows : s.Shows w c) (roomy : Roomy code c)
    (stands : At code s.offset a) (enough : a.op.needs ≤ s.temps.length + s.locals.length) :
    a.step c.machine = a.perform (a.pass c.machine) ∧
      (s.behind a).Shows w ⟨a.pass c.machine, c.lines⟩ := by
  refine ⟨?_, ?_⟩
  · rcases a.step_cases c.machine with ⟨limited, _⟩ | ⟨few, _⟩ | ⟨_, full⟩ | ⟨_, step⟩
    · rw [shows.unlimited] at limited
      exact absurd limited (Nat.lt_irrefl 0)
    · rw [shows.size] at few
      exact absurd enough (Nat.not_le.2 few)
    · exact absurd full (roomy (.none c) (shows.ip ▸ stands))
    · exact step
  · exact ⟨congrArg (· + a.size) shows.ip, shows.names, shows.pile, shows.globals,
      shows.unlimited, shows.lines⟩

theorem Simulates.instruction (stands : At code s.offset a)
    (enough : a.op.needs ≤ s.temps.length + s.locals.length)
    (h : ∀ ⦃w m lines⦄, (s.behind a).Shows w ⟨m, lines⟩ → Answers lines t (x.run w) (a.perform m)) :
    Simulates code bound s x t := by
  intro w c shows roomy
  obtain ⟨step, behind⟩ := shows.step roomy stands enough
  have answers := h behind
  rw [← step] at answers
  have here : At code c.machine.ip a := shows.ip ▸ stands
  revert answers
  cases effect : a.step c.machine with
  | next m =>
    rcases x.run w with ⟨v, w'⟩ | ⟨fault | _, w'⟩
    · exact fun answers => ⟨1, _, .one (.next here effect), answers⟩
    · exact False.elim
    · exact False.elim
  | print line m =>
    rcases x.run w with ⟨v, w'⟩ | ⟨fault | _, w'⟩
    · exact fun answers => ⟨1, _, .one (.print here effect), answers⟩
    · exact False.elim
    · exact False.elim
  | finish m =>
    rcases x.run w with ⟨v, w'⟩ | ⟨fault | _, w'⟩
    all_goals exact False.elim
  | fault fault m =>
    rcases x.run w with ⟨v, w'⟩ | ⟨fault' | _, w'⟩
    · exact False.elim
    · rintro ⟨rfl, globals, lines⟩
      exact ⟨0, c, .none c, a, m, here, effect, globals, lines⟩
    · exact False.elim

theorem Simulates.skip (stands : At code s.offset a)
    (enough : a.op.needs ≤ s.temps.length + s.locals.length)
    (h : ∀ ⦃w m lines⦄, (s.behind a).Shows w ⟨m, lines⟩ →
      ∃ m', a.perform m = .next m' ∧ s₁.Shows w ⟨m', lines⟩)
    (rest : Simulates code bound s₁ x t) : Simulates code (bound + 1) s x t := by
  intro w c shows roomy
  obtain ⟨step, behind⟩ := shows.step roomy stands enough
  obtain ⟨m', effect, shows₁⟩ := h behind
  have moves : Moves code 1 c ⟨m', c.lines⟩ :=
    .one (.next (shows.ip ▸ stands) (step.trans effect))
  rw [Nat.add_comm]
  exact (rest shows₁ (roomy.after moves)).before moves

end StackScript
