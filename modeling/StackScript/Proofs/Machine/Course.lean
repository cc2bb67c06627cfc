import StackScript.Proofs.Machine.Shift

/-! Where balanced code comes to. From a known height it completes, or it breaks at one of its
instructions, or it goes on without end; and it does the same wherever it stands. -/

namespace StackScript

open Asm Config Machine

variable {body : Fragment} {heights : Nat → Option Nat} {code : List Asm} {a : Asm} {c c₁ : Config}
  {m : Machine} {n : Nat}

namespace Config

def moved (q : Option Program) (k n : Nat) (c : Config) : Config :=
  { c with machine := c.machine.moved q k n }

/-- A configuration at a known height that may go on as long as it likes. -/
structure Inside (heights : Nat → Option Nat) (c : Config) : Prop where
  height : heights c.machine.ip = some c.machine.stack.size
  unlimited : c.machine.limit = 0

theorem Inside.follows (charted : Charted body heights) (inside : Inside heights c)
    (stands : At body.code c.machine.ip a) :
    a.Follows heights c.machine.ip c.machine.stack.size := by
  rcases charted.places inside.height with ⟨b, stands', follows⟩ | ⟨last, _⟩
  · rwa [stands.unique stands']
  · have inside := stands.lt_total
    rw [last] at inside
    exact absurd inside (Nat.lt_irrefl _)

theorem Inside.move (charted : Charted body heights) (inside : Inside heights c)
    (move : Move body.code c c₁) : Inside heights c₁ ∧ Settled c.machine c₁.machine := by
  cases move with
  | @next a m m' lines stands step | @print a m m' line lines stands step =>
    have follows := inside.follows charted stands
    have keeps := follows.step
    have settled := follows.apt.step_settled m
    rw [step] at keeps settled
    exact ⟨⟨keeps, settled.2.trans inside.unlimited⟩, settled⟩

theorem Inside.moves (charted : Charted body heights) (inside : Inside heights c)
    (moves : Moves body.code n c c₁) : Inside heights c₁ ∧ Settled c.machine c₁.machine := by
  induction moves with
  | none => exact ⟨inside, rfl, rfl⟩
  | cons move _ ih =>
    obtain ⟨inside₁, cap, limit⟩ := inside.move charted move
    obtain ⟨inside₂, cap', limit'⟩ := ih inside₁
    exact ⟨inside₂, cap'.trans cap, limit'.trans limit⟩

theorem Inside.not_overflow {fault : MachineFault} (charted : Charted body heights)
    (inside : Inside heights c) (stands : At body.code c.machine.ip a)
    (room : c.machine.stack.size < c.machine.maxStack) (fails : a.step c.machine = .fault fault m) :
    fault.cause ≠ .stackOverflow := by
  obtain ⟨operands, apt, _⟩ := inside.follows charted stands
  rcases a.step_cases c.machine with ⟨limited, _⟩ | ⟨few, _⟩ | ⟨full, _⟩ | ⟨_, step⟩
  · rw [inside.unlimited] at limited
    exact absurd limited (Nat.lt_irrefl 0)
  · exact absurd operands (Nat.not_le.2 few)
  · exact absurd full.2 (Nat.not_le.2 room)
  · have reaches := @Apt.reaches a c.machine.ip (a.pass c.machine) apt operands rfl
    rw [← step, fails] at reaches
    exact reaches.not_overflow

section Elsewhere

variable {k : Nat} (has : Has code k body.code) (q : Option Program) (steps : Nat)

include has

theorem Inside.move_moved (charted : Charted body heights) (inside : Inside heights c)
    (move : Move body.code c c₁) : Move code (c.moved q k steps) (c₁.moved q k steps) := by
  cases move with
  | next stands step =>
    have moved := (inside.follows charted stands).apt.step_moved inside.unlimited q k steps
    rw [step] at moved
    exact .next (has.inner stands) moved
  | print stands step =>
    have moved := (inside.follows charted stands).apt.step_moved inside.unlimited q k steps
    rw [step] at moved
    exact .print (has.inner stands) moved

theorem Inside.moves_moved (charted : Charted body heights) (inside : Inside heights c)
    (moves : Moves body.code n c c₁) : Moves code n (c.moved q k steps) (c₁.moved q k steps) := by
  induction moves with
  | none => exact .none _
  | cons move _ ih =>
    exact .cons (inside.move_moved has q steps charted move) (ih (inside.move charted move).1)

end Elsewhere

inductive Fate (body : Fragment) (c : Config) : Prop where
  | completes {n : Nat} {c₁ : Config} : Moves body.code n c c₁ → c₁.machine.ip = body.size →
      c₁.machine.stack = #[] → Fate body c
  | breaks {n : Nat} {c₁ : Config} {a : Asm} {fault : MachineFault} {m : Machine} :
      Moves body.code n c c₁ → At body.code c₁.machine.ip a →
      a.step c₁.machine = .fault fault m → Fate body c
  | endless : (∀ n, ∃ c₁, Moves body.code n c c₁) → Fate body c

theorem Fate.before (move : Move body.code c c₁) (fate : Fate body c₁) : Fate body c := by
  cases fate with
  | completes moves last empty => exact .completes (.cons move moves) last empty
  | breaks moves stands fails => exact .breaks (.cons move moves) stands fails
  | endless goes =>
    refine .endless fun n => ?_
    cases n with
    | zero => exact ⟨c, .none c⟩
    | succ n =>
      obtain ⟨c₂, moves⟩ := goes n
      exact ⟨c₂, .cons move moves⟩

theorem Inside.fate_or_move (charted : Charted body heights) (inside : Inside heights c) :
    Fate body c ∨ ∃ c₁, Move body.code c c₁ := by
  rcases charted.places inside.height with ⟨a, stands, follows⟩ | ⟨last, empty⟩
  · have keeps := follows.step
    cases step : a.step c.machine with
    | next m => exact .inr ⟨⟨m, c.lines⟩, .next stands step⟩
    | print line m => exact .inr ⟨⟨m, c.lines ++ [line]⟩, .print stands step⟩
    | finish m =>
      rw [step] at keeps
      exact keeps.elim
    | fault fault m => exact .inl (.breaks (.none c) stands step)
  · exact .inl (.completes (.none c) last (Array.eq_empty_of_size_eq_zero empty))

theorem Inside.goes_on (charted : Charted body heights) (inside : Inside heights c)
    (unmet : ¬ Fate body c) (n : Nat) : ∃ c₁, Moves body.code n c c₁ := by
  induction n generalizing c with
  | zero => exact ⟨c, .none c⟩
  | succ n ih =>
    rcases inside.fate_or_move charted with fate | ⟨c₁, move⟩
    · exact absurd fate unmet
    · obtain ⟨c₂, moves⟩ := ih (inside.move charted move).1 fun fate => unmet (fate.before move)
      exact ⟨c₂, .cons move moves⟩

theorem Inside.fate (charted : Charted body heights) (inside : Inside heights c) :
    Fate body c :=
  Classical.byContradiction fun unmet => unmet (.endless (inside.goes_on charted unmet))

end Config

end StackScript
