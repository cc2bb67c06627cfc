import StackScript.Proofs.Semantics.Simulation

/-! Single instructions in the simulation: how variables are found in their slots, what the
operators compute, and where jumps lead. -/

namespace StackScript

open Asm Config

theorem findLocal_locate (x : Text) (ls : List (Text × Value)) :
    match locate x (ls.map (·.1)) with
    | .slot n => ∃ v, findLocal x ls = some v ∧ (ls.map (·.2)).reverse[n]? = some v
    | .global y => y = x ∧ findLocal x ls = none := by
  induction ls with
  | nil => exact ⟨rfl, rfl⟩
  | cons entry ls ih =>
    obtain ⟨y, u⟩ := entry
    simp only [List.map_cons, locate, findLocal, List.reverse_cons]
    by_cases same : y = x
    · simp only [if_pos same]
      exact ⟨u, rfl, by simp⟩
    · simp only [if_neg same]
      revert ih
      cases locate x (ls.map (·.1)) with
      | slot n =>
        rintro ⟨v, found, stands⟩
        refine ⟨v, found, ?_⟩
        rw [List.getElem?_append_left (List.getElem?_eq_some_iff.1 stands).1, stands]
      | global z => exact id

theorem assignLocal_locate (x : Text) (v : Value) (ls : List (Text × Value)) :
    match locate x (ls.map (·.1)) with
    | .slot n => n < ls.length ∧ ∃ ls', assignLocal x v ls = some ls' ∧
        ls'.map (·.1) = ls.map (·.1) ∧ (ls'.map (·.2)).reverse = (ls.map (·.2)).reverse.set n v
    | .global y => y = x ∧ assignLocal x v ls = none := by
  induction ls with
  | nil => exact ⟨rfl, rfl⟩
  | cons entry ls ih =>
    obtain ⟨y, u⟩ := entry
    simp only [List.map_cons, locate, assignLocal, List.reverse_cons]
    by_cases same : y = x
    · simp only [if_pos same]
      refine ⟨by simp, _, rfl, rfl, ?_⟩
      rw [List.set_append_right _ _ (by simp)]
      simp
    · simp only [if_neg same]
      revert ih
      cases locate x (ls.map (·.1)) with
      | slot n =>
        rintro ⟨small, ls', assigned, names, values⟩
        refine ⟨Nat.lt_succ_of_lt small, (y, u) :: ls', by rw [assigned]; rfl, by simp [names], ?_⟩
        rw [List.map_cons, List.reverse_cons, values, List.set_append_left _ _ (by simpa using small)]
      | global z =>
        rintro ⟨same, missing⟩
        exact ⟨same, by rw [missing]; rfl⟩

namespace Simulates

variable {code : List Asm} {α : Type} {bound o : Nat} {names : List Text} {temps : List Value}
  {t : α → Spot} {x : Eval α}

theorem pop {v : Value} (stands : At code o (.plain .pop))
    (rest : Simulates code bound ⟨o + 1, names, temps⟩ x t) :
    Simulates code (bound + 1) ⟨o, names, v :: temps⟩ x t := by
  refine skip stands (by simp [Asm.op, Opcode.needs]; omega) ?_ rest
  intro w m lines shows
  exact ⟨_, rfl, shows.drop⟩

theorem jump {n : Nat} (stands : At code o (.jump n))
    (rest : Simulates code bound ⟨o + 3 + n, names, temps⟩ x t) :
    Simulates code (bound + 1) ⟨o, names, temps⟩ x t := by
  refine skip stands (Nat.zero_le _) ?_ rest
  intro w m lines shows
  exact ⟨_, rfl, ⟨congrArg (· + n) shows.ip, shows.names, shows.pile, shows.globals,
    shows.unlimited, shows.lines⟩⟩

theorem loop {n back : Nat} (stands : At code o (.loop n)) (near : o + 3 = back + n)
    (rest : Simulates code bound ⟨back, names, temps⟩ x t) :
    Simulates code (bound + 1) ⟨o, names, temps⟩ x t := by
  refine skip stands (Nat.zero_le _) ?_ rest
  intro w m lines shows
  have ip : m.ip = back + n := shows.ip.trans near
  refine ⟨{ m with ip := m.ip - n }, ?_, ⟨?_, shows.names, shows.pile, shows.globals,
    shows.unlimited, shows.lines⟩⟩
  · simp only [perform, Machine.loopBack]
    rw [if_neg (by omega)]
  · change m.ip - n = back
    omega

theorem test {n : Nat} {v : Value} {y : Eval α} (stands : At code o (.jumpFalse n))
    (yes : Simulates code bound ⟨o + 3, names, v :: temps⟩ x t)
    (no : Simulates code bound ⟨o + 3 + n, names, v :: temps⟩ y t) :
    Simulates code (bound + 1) ⟨o, names, v :: temps⟩ (if v.truthy then x else y) t := by
  have enough : (Asm.jumpFalse n).op.needs ≤ (v :: temps).length + names.length := by
    simp [Asm.op, Opcode.needs]
    omega
  cases truthy : v.truthy with
  | true =>
    refine skip stands enough ?_ yes
    intro w m lines shows
    refine ⟨m, ?_, shows⟩
    simp only [perform, shows.top, truthy, if_true]
  | false =>
    refine skip stands enough ?_ no
    intro w m lines shows
    refine ⟨m.jumpBy n, ?_, congrArg (· + n) shows.ip, shows.names, shows.pile, shows.globals,
      shows.unlimited, shows.lines⟩
    simp [perform, shows.top, truthy]

theorem push {a : Asm} {v : Value} (stands : At code o a) (needs : a.op.needs = 0)
    (performs : ∀ m, a.perform m = .next (m.push v)) :
    Simulates code bound ⟨o, names, temps⟩ (pure v) fun v => ⟨o + a.size, names, v :: temps⟩ := by
  refine instruction stands (by simp [needs]) ?_
  intro w m lines shows
  rw [performs]
  exact shows.push v

theorem get (x : Text) (stands : At code o (.get (locate x names))) :
    Simulates code bound ⟨o, names, temps⟩ (Eval.read x) fun v =>
      ⟨o + (Asm.get (locate x names)).size, names, v :: temps⟩ := by
  have needs : (Asm.get (locate x names)).op.needs = 0 := by cases locate x names <;> rfl
  refine instruction stands (by simp [needs]) ?_
  intro w m lines shows
  have found := findLocal_locate x w.locals
  have same : w.locals.map (·.1) = names := shows.names
  rw [same] at found
  cases place : locate x names with
  | slot n =>
    rw [place] at found shows
    obtain ⟨v, here, stands⟩ := found
    have read : (Eval.read x).run w = .ok v w := by
      simp only [Eval.read, EStateM.run_bind, EStateM.run_get, here]
      rfl
    have slot : m.stack[n]? = some v := by
      rw [← Array.getElem?_toList, shows.stack,
        List.getElem?_append_left (List.getElem?_eq_some_iff.1 stands).1, stands]
    rw [read]
    simp only [perform, Machine.getLocal, slot]
    exact shows.push v
  | global y =>
    rw [place] at found shows
    obtain ⟨rfl, here⟩ := found
    simp only [Eval.read, EStateM.run_bind, EStateM.run_get, here, perform, Machine.getGlobal]
    rw [shows.globals]
    cases w.globals[y]? with
    | some v => exact shows.push v
    | none => exact ⟨rfl, shows.globals, shows.lines⟩

theorem set (x : Text) (v : Value) (stands : At code o (.set (locate x names))) :
    Simulates code bound ⟨o, names, v :: temps⟩ (Eval.write x v) fun _ =>
      ⟨o + (Asm.set (locate x names)).size, names, v :: temps⟩ := by
  have needs : (Asm.set (locate x names)).op.needs = 1 := by cases locate x names <;> rfl
  refine instruction stands (by rw [needs, List.length_cons]; omega) ?_
  intro w m lines shows
  have found := assignLocal_locate x v w.locals
  have same : w.locals.map (·.1) = names := shows.names
  rw [same] at found
  cases place : locate x names with
  | slot n =>
    rw [place] at found shows
    obtain ⟨small, ls, assigned, names', values⟩ := found
    have write : (Eval.write x v).run w = .ok () { w with locals := ls } := by
      simp only [Eval.write, EStateM.run_bind, EStateM.run_get, assigned]
      rfl
    have inside : n < m.stack.size := by
      rw [← Array.length_toList, shows.stack, List.length_append, List.length_reverse, List.length_map]
      exact Nat.lt_add_right _ small
    rw [write]
    simp only [perform, Machine.setLocal, if_pos inside, shows.top]
    refine ⟨shows.ip, names', ?_, shows.globals, shows.unlimited, shows.lines⟩
    have below : n < (w.locals.map (·.2)).reverse.length := by simpa using small
    simp only [Machine.pile, Array.toList_setIfInBounds, shows.stack]
    rw [List.set_append_left _ _ below, ← values]
    simp
  | global y =>
    rw [place] at found shows
    obtain ⟨rfl, here⟩ := found
    simp only [Eval.write, EStateM.run_bind, EStateM.run_get, here, perform, Machine.setGlobal, shows.top]
    rw [shows.globals]
    cases w.globals.contains y with
    | true =>
      exact ⟨shows.ip, shows.names, shows.pile, rfl, shows.unlimited, shows.lines⟩
    | false => exact ⟨rfl, shows.globals, shows.lines⟩

theorem define (x : Text) (v : Value) (stands : At code o (.define x)) :
    Simulates code bound ⟨o, names, v :: temps⟩ (Eval.declare true x v) fun _ =>
      ⟨o + (Asm.define x).size, names, temps⟩ := by
  refine instruction stands (by simp [Asm.op, Opcode.needs]; omega) ?_
  intro w m lines shows
  simp only [perform, Machine.defineGlobal, shows.top]
  have dropped := shows.drop
  exact ⟨dropped.ip, dropped.names, dropped.pile, congrArg (·.insert x v) dropped.globals,
    dropped.unlimited, dropped.lines⟩

theorem stay (x : Text) (v : Value) :
    Simulates code bound ⟨o, names, [v]⟩ (Eval.declare false x v) fun _ => ⟨o, x :: names, []⟩ := by
  intro w c shows _
  exact ⟨0, c, .none c, shows.ip, congrArg (x :: ·) shows.names, shows.pile, shows.globals,
    shows.unlimited, shows.lines⟩

theorem binary {op : Opcode} {f : Value → Value → Except OperatorFault Value} {a b : Value}
    (stands : At code o (.plain op)) (needs : op.needs = 2)
    (performs : ∀ m, Machine.perform {} ⟨op, 0⟩ m = m.binary f) :
    Simulates code bound ⟨o, names, b :: a :: temps⟩ (Eval.compute (f a b)) fun v =>
      ⟨o + (Asm.plain op).size, names, v :: temps⟩ := by
  refine instruction stands (by simp [Asm.op, needs]; omega) ?_
  intro w m lines shows
  simp only [perform, performs, Machine.binary, shows.top, shows.drop.top]
  cases f a b with
  | ok v => exact shows.drop.drop.push v
  | error e => exact ⟨rfl, shows.globals, shows.lines⟩

theorem unary {op : Opcode} {f : Value → Except OperatorFault Value} {a : Value}
    (stands : At code o (.plain op)) (needs : op.needs = 1)
    (performs : ∀ m, Machine.perform {} ⟨op, 0⟩ m = m.unary f) :
    Simulates code bound ⟨o, names, a :: temps⟩ (Eval.compute (f a)) fun v =>
      ⟨o + (Asm.plain op).size, names, v :: temps⟩ := by
  refine instruction stands (by simp [Asm.op, needs]; omega) ?_
  intro w m lines shows
  simp only [perform, performs, Machine.unary, shows.top]
  cases f a with
  | ok v => exact shows.drop.push v
  | error e => exact ⟨rfl, shows.globals, shows.lines⟩

theorem select {condition yes no : Value} (stands : At code o (.plain .ternary)) :
    Simulates code bound ⟨o, names, no :: yes :: condition :: temps⟩
      (pure (if condition.truthy then yes else no)) fun v => ⟨o + 1, names, v :: temps⟩ := by
  refine instruction stands (by simp [Asm.op, Opcode.needs]; omega) ?_
  intro w m lines shows
  have chosen := shows.drop.drop.drop.push (if condition.truthy then yes else no)
  simp only [perform, Machine.perform, Machine.select, shows.top, shows.drop.top, shows.drop.drop.top]
  exact chosen

theorem print {v : Value} (stands : At code o (.plain .print)) :
    Simulates code bound ⟨o, names, v :: temps⟩ (Eval.print v) fun _ => ⟨o + 1, names, temps⟩ := by
  refine instruction stands (by simp [Asm.op, Opcode.needs]; omega) ?_
  intro w m lines shows
  simp only [perform, Machine.perform, shows.top]
  have dropped := shows.drop
  have lines' : lines = w.output.map Value.line := shows.lines
  refine ⟨dropped.ip, dropped.names, dropped.pile, dropped.globals, dropped.unlimited, ?_⟩
  simp [lines', Value.line]

end Simulates

end StackScript
