import StackScript.Proofs.Machine.Course
import StackScript.Proofs.Semantics.Statements

/-! Compilation preserves meaning. Whatever globals a program starts with, its run on the
machine ends exactly when the evaluation of its tree does, and then in the same way. -/

namespace StackScript

open Asm Config Fragment Grammar

namespace Machine

def conclusion : Ending × Machine × List Text → Option Conclusion
  | (.finished, m, lines) => some ⟨none, m.globals, lines⟩
  | (.failed e, m, lines) => some ⟨some e.fault, m.globals, lines⟩
  | (.unfinished, _, _) => none

def Concludes (p : Program) (m : Machine) (result : Conclusion) : Prop :=
  ∃ fuel, conclusion (run recorder fuel p m []) = some result

/-- No run of a program fails because the stack is full. -/
def NeverFull (p : Program) (m : Machine) : Prop :=
  ∀ ⦃fuel e m' lines⦄, run recorder fuel p m [] = (.failed e, m', lines) →
    e.fault.cause ≠ .stackOverflow

variable {p : Program} {f : Fragment} {m : Machine}

theorem conclusion_unique {fuel fuel' : Nat} {result result' : Conclusion}
    (h : conclusion (run recorder fuel p m []) = some result)
    (h' : conclusion (run recorder fuel' p m []) = some result') : result = result' := by
  have ended {r : Ending × Machine × List Text} {c : Conclusion} (h : conclusion r = some c) :
      r.1 ≠ .unfinished := by
    rintro unfinished
    obtain ⟨ending, rest⟩ := r
    cases unfinished
    cases h
  rw [run_unique rfl rfl (ended h) (ended h'), h'] at h
  exact (Option.some.inj h).symm

theorem NeverFull.roomy (holds : p.Holds f) (h : NeverFull p m) :
    Roomy f.code ⟨m.load p, []⟩ := by
  intro n c₁ a cap m' moves stands overflow
  exact h (run_failed holds moves stands overflow) rfl

theorem exists_neverFull {body : Fragment} {heights : Nat → Option Nat}
    (holds : p.Holds (body ++ of [.plain .finish])) (charted : Charted body heights) :
    ∃ cap, ∀ m : Machine, m.limit = 0 → cap ≤ m.maxStack → NeverFull p m := by
  obtain ⟨cap, lower⟩ := charted.capped
  refine ⟨cap, fun m unlimited roomy fuel e m' lines failed => ?_⟩
  have inside : Inside heights ⟨m.load p, []⟩ := ⟨charted.start, unlimited⟩
  cases inside.fate charted with
  | completes moves last empty =>
    have inside₁ := (inside.moves charted moves).1
    have finished := run_finished holds (moves.left _) (last ▸ .here body.code _ []) inside₁.unlimited
    cases run_unique failed finished (by simp) (by simp)
  | breaks moves stands fails =>
    obtain ⟨inside₁, kept, _⟩ := inside.moves charted moves
    have broken := run_failed holds (moves.left _) (stands.left _) fails
    cases run_unique failed broken (by simp) (by simp)
    exact inside₁.not_overflow charted stands
      (kept ▸ Nat.lt_of_lt_of_le (lower inside₁.height) roomy) fails
  | endless goes =>
    obtain ⟨c₁, moves⟩ := goes fuel
    have unfinished := run_unfinished holds (moves.left _) (Nat.le_refl _)
    rw [failed] at unfinished
    cases unfinished

end Machine

open Machine

variable {p : Program} {ds : List Decl} {m : Machine}

/-- The code of a text does what its evaluation does, from the start to the last instruction. -/
theorem tracks_program (formed : ∀ e ∈ exprsAll ds, e.Formed) (holds : p.Holds (program ds))
    (unlimited : m.limit = 0) (full : NeverFull p m) (bound : Nat) :
    Tracks (program ds).code bound ⟨m.load p, []⟩
      (fun _ => ⟨(fragmentAll true [] ds).size, [], []⟩)
      ((execAll bound true ds).run { globals := m.globals }) := by
  have has : Has (program ds).code 0 (fragmentAll true [] ds).code := ⟨[], [.plain .finish], rfl, rfl⟩
  have shows : (Spot.mk 0 [] []).Shows { globals := m.globals } ⟨m.load p, []⟩ :=
    ⟨rfl, rfl, rfl, rfl, unlimited, rfl⟩
  have simulates := @simulates_all (program ds).code bound 0 true [] ds formed has
  rw [Nat.zero_add] at simulates
  exact simulates shows (full.roomy holds)

theorem concludes_of_evaluate (formed : ∀ e ∈ exprsAll ds, e.Formed) (holds : p.Holds (program ds))
    (unlimited : m.limit = 0) (full : NeverFull p m) {bound : Nat} {result : Conclusion}
    (evaluated : evaluate bound ds m.globals = some result) : Concludes p m result := by
  have tracks := tracks_program formed holds unlimited full bound
  revert tracks evaluated
  unfold evaluate
  rcases (execAll bound true ds).run { globals := m.globals } with ⟨_, w⟩ | ⟨fault | _, w⟩
  · rintro ⟨⟩ ⟨n, c, moves, shows⟩
    refine ⟨n + 1, ?_⟩
    have stands : At (program ds).code c.machine.ip (.plain .finish) := by
      rw [shows.ip]
      exact .here (fragmentAll true [] ds).code _ []
    rw [run_finished holds moves stands shows.unlimited, ← shows.globals, ← shows.lines]
    rfl
  · rintro ⟨⟩ ⟨n, c, moves, a, m', stands, failed, globals, lines⟩
    refine ⟨n + 1, ?_⟩
    rw [run_failed holds moves stands failed, ← globals, ← lines]
    rfl
  · rintro ⟨⟩

theorem unfinished_of_evaluate (formed : ∀ e ∈ exprsAll ds, e.Formed)
    (holds : p.Holds (program ds)) (unlimited : m.limit = 0) (full : NeverFull p m) {bound : Nat}
    (evaluated : evaluate bound ds m.globals = none) :
    conclusion (run recorder bound p m []) = none := by
  have tracks := tracks_program formed holds unlimited full bound
  revert tracks evaluated
  unfold evaluate
  rcases (execAll bound true ds).run { globals := m.globals } with ⟨_, w⟩ | ⟨fault | _, w⟩
  · rintro ⟨⟩
  · rintro ⟨⟩
  · rintro _ ⟨n, c, enough, moves⟩
    have unfinished := run_unfinished holds moves enough
    revert unfinished
    rcases run recorder bound p m [] with ⟨_ | e | _, rest⟩
    · rintro ⟨⟩
    · rintro ⟨⟩
    · exact fun _ => rfl

/-- Where a run and an evaluation both start, one ends in a way exactly when the other does. -/
theorem concludes_iff_evaluates (formed : ∀ e ∈ exprsAll ds, e.Formed)
    (holds : p.Holds (program ds)) (unlimited : m.limit = 0) (full : NeverFull p m)
    (result : Conclusion) : Concludes p m result ↔ Evaluates ds m.globals result := by
  constructor
  · rintro ⟨fuel, concluded⟩
    refine ⟨fuel, ?_⟩
    cases evaluated : evaluate fuel ds m.globals with
    | some result' =>
      obtain ⟨fuel', concluded'⟩ := concludes_of_evaluate formed holds unlimited full evaluated
      rw [conclusion_unique concluded concluded']
    | none =>
      rw [unfinished_of_evaluate formed holds unlimited full evaluated] at concluded
      cases concluded
  · rintro ⟨bound, evaluated⟩
    exact concludes_of_evaluate formed holds unlimited full evaluated

/-- A program runs as its tree is evaluated. The tokens derive a tree, high enough caps are never
hit, and with any cap that is never hit and without a limit the run and the evaluation of the tree
end alike, or neither ends. -/
theorem runs_as_evaluated {file : Text} {tokens : List Token}
    (compiled : compileTokens file tokens = .ok p) :
    (∃ ds, Derives tokens ds) ∧
      (∃ cap, ∀ m : Machine, m.limit = 0 → cap ≤ m.maxStack → NeverFull p m) ∧
      ∀ ds, Derives tokens ds → ∀ m : Machine, m.limit = 0 → NeverFull p m →
        ∀ result, Concludes p m result ↔ Evaluates ds m.globals result := by
  obtain ⟨ds, derived⟩ := exists_derives compiled
  have along := derived.compiled file
  rw [compiled] at along
  obtain ⟨heights, charted⟩ := derived.charted
  refine ⟨⟨ds, derived⟩, exists_neverFull along.2.2 charted, ?_⟩
  intro ds derived m unlimited full result
  have along := derived.compiled file
  rw [compiled] at along
  exact concludes_iff_evaluates derived.1.formed along.2.2 unlimited full result

/-- The program of `print true;`, on a machine of its own, is never short of room. -/
theorem runs_as_evaluated_print :
    ∃ p ds, compileTokens [] [⟨.kwPrint, utf8 "print", {}⟩, ⟨.kwTrue, utf8 "true", {}⟩,
        ⟨.semicolon, utf8 ";", {}⟩] = .ok p ∧ NeverFull p {} ∧
      (∀ result, Concludes p {} result ↔ Evaluates ds ∅ result) ∧
      Evaluates ds ∅ ⟨none, ∅, [utf8 "true\n"]⟩ := by
  obtain ⟨p, compiled⟩ : ∃ p, compileTokens [] [⟨.kwPrint, utf8 "print", {}⟩,
    ⟨.kwTrue, utf8 "true", {}⟩, ⟨.semicolon, utf8 ";", {}⟩] = .ok p := ⟨_, rfl⟩
  have full : NeverFull p {} := by
    cases compiled
    intro fuel e m lines failed
    match fuel, failed with
    | 0, failed | 1, failed | 2, failed => cases failed
    | fuel + 3, failed => cases failed
  have derived : Derives [⟨.kwPrint, utf8 "print", {}⟩, ⟨.kwTrue, utf8 "true", {}⟩,
      ⟨.semicolon, utf8 ";", {}⟩] [.statement (.print ⟨.kwPrint, utf8 "print", {}⟩
        (.literal ⟨.kwTrue, utf8 "true", {}⟩) ⟨.semicolon, utf8 ";", {}⟩)] := by
    have value : Expression .assignment _ (.literal ⟨.kwTrue, utf8 "true", {}⟩) :=
      Expression.loosen (.literal (by decide)) (by decide) (by decide)
    exact ⟨.cons (.statement (.print rfl value rfl)) .nil, rfl⟩
  exact ⟨p, _, compiled, full, (runs_as_evaluated compiled).2.2 _ derived {} rfl full, 0, rfl⟩

end StackScript
