import StackScript.Proofs.Integrity
import StackScript.Proofs.Machine.Congruence
import StackScript.Proofs.Machine.Moves

/-! Code that stands further on. Without a limit, a machine moved along with its code takes the
same steps, because no instruction looks at where it stands; a jump back only has to stay
inside the code. -/

namespace StackScript

open Asm Config

namespace Machine

/-- The same machine further on in another program, with more steps behind it. -/
def moved (q : Option Program) (k n : Nat) (m : Machine) : Machine :=
  { m with program := q, ip := m.ip + k, count := m.count + n }

variable (q : Option Program) (k n : Nat) (m : Machine)

theorem stack_moved : (m.moved q k n).stack = m.stack := rfl

theorem maxStack_moved : (m.moved q k n).maxStack = m.maxStack := rfl

theorem congruence_moved : Congruence fun m m' => m' = m.moved q k n where
  stack := by
    rintro m _ rfl
    rfl
  global := by
    rintro m _ x rfl
    rfl
  restack := by
    rintro m _ values rfl
    rfl
  assign := by
    rintro m _ x v rfl
    rfl
  jumpBy := by
    rintro m _ d rfl
    simp only [jumpBy, moved, mk.injEq, true_and, and_true]
    omega
  back := by
    rintro m _ d rfl inside
    simp only [moved, mk.injEq, true_and, and_true]
    omega

end Machine

open Machine

variable {q : Option Program} {k n : Nat} {m : Machine}

/-- Neither the cap nor the limit of a machine changes. -/
def Settled (m m' : Machine) : Prop := m'.maxStack = m.maxStack ∧ m'.limit = m.limit

theorem congruence_settled (before : Machine) :
    Congruence fun m m' => m = m' ∧ Settled before m where
  stack same := congrArg stack same.1
  global x same := by rw [same.1]
  restack := by
    rintro m _ values ⟨rfl, settled⟩
    exact ⟨rfl, settled⟩
  assign := by
    rintro m _ x v ⟨rfl, settled⟩
    exact ⟨rfl, settled⟩
  jumpBy := by
    rintro m _ d ⟨rfl, settled⟩
    exact ⟨rfl, settled⟩
  back := by
    rintro m _ d ⟨rfl, settled⟩ _
    exact ⟨rfl, settled⟩

namespace Asm

theorem Apt.related {M : Machine → Machine → Prop} {m m' : Machine} {a : Asm} {offset height : Nat}
    (apt : a.Apt offset height) (kept : Congruence M) (h : M m m')
    (near : ∀ d, a = .loop d → m.ip = m'.ip ∨ d ≤ m.ip ∧ d ≤ m'.ip) :
    (a.perform m).Related M (a.perform m') := by
  match a, apt with
  | .load v, _ => exact .next (kept.push h v)
  | .define x, _ => exact kept.defineGlobal h x
  | .plain op, ⟨width, _⟩ =>
    change (Machine.perform {} ⟨op, 0⟩ m).Related M (Machine.perform {} ⟨op, 0⟩ m')
    refine kept.perform h ⟨op, 0⟩ rfl fun loop => ?_
    obtain rfl : op = .loop := loop
    cases width
  | .get (.slot i), _ => exact kept.getLocal h i
  | .get (.global x), _ => exact kept.getGlobal h x
  | .set (.slot i), _ => exact kept.setLocal h i
  | .set (.global x), _ => exact kept.setGlobal h x
  | .jump d, _ => exact .next (kept.jumpBy d h)
  | .jumpFalse d, _ => exact .next (kept.jumpFalse h d)
  | .loop d, _ => exact kept.loopBack h (near d rfl)

theorem Apt.perform_moved {a : Asm} {offset height : Nat} (apt : a.Apt offset height)
    (ip : m.ip = offset + a.size) :
    a.perform (m.moved q k n) = (a.perform m).map (moved q k n) := by
  refine (apt.related (congruence_moved q k n) rfl ?_).eq_map
  rintro d rfl
  have inside : d ≤ m.ip := by
    rw [ip]
    exact apt
  exact .inr ⟨inside, Nat.le_add_right_of_le inside⟩

theorem Apt.perform_settled {a : Asm} {offset height : Nat} (apt : a.Apt offset height) :
    Settled m (a.perform m).machine :=
  (apt.related (congruence_settled m) ⟨rfl, rfl, rfl⟩ fun _ _ => .inl rfl).machine.2

theorem Apt.step_settled {a : Asm} {offset height : Nat} (apt : a.Apt offset height)
    (m : Machine) : Settled m (a.step m).machine := by
  rcases a.step_cases m with ⟨_, step⟩ | ⟨_, step⟩ | ⟨_, step⟩ | ⟨_, step⟩
  · rw [step]
    exact ⟨rfl, rfl⟩
  · rw [step]
    exact ⟨rfl, rfl⟩
  · rw [step]
    exact ⟨rfl, rfl⟩
  · rw [step]
    exact @perform_settled (a.pass m) a offset height apt

theorem step_of_unlimited {a : Asm} (unlimited : m.limit = 0) :
    a.step m =
      if m.stack.size < a.op.needs then .fault (.stackUnderflow a.op m.stack.size) m
      else if a.op.grows && m.maxStack ≤ m.stack.size then .fault (.stackOverflow m.maxStack) m
      else a.perform (a.pass m) := by
  simp only [step, unlimited, Nat.lt_irrefl, decide_false, Bool.false_and, Bool.false_eq_true,
    if_false, pass]

theorem Apt.step_moved {a : Asm} {height : Nat} (apt : a.Apt m.ip height)
    (unlimited : m.limit = 0) (q : Option Program) (k n : Nat) :
    a.step (m.moved q k n) = (a.step m).map (moved q k n) := by
  have pass : a.pass (m.moved q k n) = (a.pass m).moved q k n := by
    simp only [Asm.pass, moved, Machine.mk.injEq, true_and, and_true]
    omega
  have performed : a.perform ((a.pass m).moved q k n) =
      (a.perform (a.pass m)).map (moved q k n) := apt.perform_moved rfl
  rw [step_of_unlimited unlimited, step_of_unlimited (show (m.moved q k n).limit = 0 from unlimited),
    pass, performed, stack_moved, maxStack_moved]
  split
  · rfl
  · split <;> rfl

end Asm

end StackScript
