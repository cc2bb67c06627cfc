import StackScript.Proofs.Session.Input

/-! What a session shows on its channels, and what is left of it beside that. Nothing that is written or
shown without calls inside changes more than a channel and the count of writes. -/

namespace StackScript

namespace Session

def output (c : Channel) (s : Session) : Text :=
  match c with
  | .primary => s.out.toList
  | .secondary => s.outSecondary.toList

def mute (s : Session) : Session := { s with err := #[], errSecondary := #[] }

theorem mute_complain (c : Channel) (t : Text) (s : Session) : (s.complain c t).mute = s.mute := by
  cases c <;> rfl

theorem mute_trace (inside : Inside) (k : Nat) (debug : Bool) (p : StackScript.Program) (m : Machine)
    (i : Instruction) (s : Session) : ((host inside k debug).trace p m i s).mute = s.mute :=
  trace_keeps (P := fun s' => s'.mute = s.mute)
    (fun c t s' same => (mute_complain c t s').trans same) debug p m i rfl

theorem output_of_mute {s s' : Session} (same : s'.mute = s.mute) (c : Channel) :
    s'.output c = s.output c := by
  have whole : s'.mute.output c = s.mute.output c := by rw [same]
  cases c <;> exact whole

/-- A session as it would be without anything on its channels and before any write. -/
def bare (s : Session) : Session := { s.drain with gate := { s.gate with writes := 0 } }

theorem bare_of_mute {s s' : Session} (same : s'.mute = s.mute) : s'.bare = s.bare := by
  have whole : s'.mute.bare = s.mute.bare := by rw [same]
  exact whole

theorem refusal_of_bare {s s' : Session} (same : s'.bare = s.bare) :
    s'.gate.refusal = s.gate.refusal := by
  have whole : s'.bare.gate.refusal = s.bare.gate.refusal := by rw [same]
  exact whole

theorem channelOf_of_bare {s s' : Session} (same : s'.bare = s.bare) (k : Nat) :
    s'.channelOf k = s.channelOf k := by
  have whole : s'.bare.channelOf k = s.bare.channelOf k := by rw [same]
  exact whole

def Takes (k : Nat) (s : Session) : Prop :=
  s.channelOf k = .primary → ∀ r ∈ s.gate.refusal, s.gate.writes < r.first

theorem takes_of_unrefused {s : Session} (unrefused : s.gate.refusal = none) (k : Nat) : s.Takes k := by
  intro _ r given
  cases unrefused.symm.trans given

theorem writeFrom_of_takes {s : Session} {k : Nat} (takes : s.Takes k) (t : Text) :
    ∃ s', s.writeFrom undisturbed k t = (.ok (), s') ∧
      ∀ c, s'.output c = s.output c ++ if c = s.channelOf k then t else [] := by
  unfold writeFrom
  unfold Takes at takes
  cases channel : s.channelOf k with
  | secondary =>
    refine ⟨_, rfl, fun c => ?_⟩
    cases c <;> simp [output, append]
  | primary =>
    have answer : (s.interrupted undisturbed).gate.answer s.gate.writes = .ok () := by
      have same : (s.interrupted undisturbed).gate.refusal = s.gate.refusal := rfl
      rw [Gate.answer, same]
      cases given : s.gate.refusal with
      | none => rfl
      | some r => exact if_neg (Nat.not_le.2 (takes channel r given))
    rw [write_primary, answer]
    refine ⟨_, rfl, fun c => ?_⟩
    cases c <;> simp [output, print, append, interrupted, letIn, undisturbed]

/-- Behind a line that is refused nothing has been shown, and the next one is refused too. -/
theorem writeFrom_of_refused {s : Session} {k : Nat} (refused : ¬ s.Takes k) (t : Text) :
    ¬ (s.writeFrom undisturbed k t).2.Takes k ∧
      ∀ c, (s.writeFrom undisturbed k t).2.output c = s.output c := by
  obtain ⟨primary, r, given, past⟩ :
      s.channelOf k = .primary ∧ ∃ r ∈ s.gate.refusal, r.first ≤ s.gate.writes := by
    simpa [Takes] using refused
  have answer : (s.interrupted undisturbed).gate.answer s.gate.writes = .error r.fault := by
    have same : (s.interrupted undisturbed).gate.refusal = some r := given
    rw [Gate.answer, same]
    exact if_pos past
  have written : s.writeFrom undisturbed k t = (.error r.fault, s.interrupted undisturbed) := by
    rw [writeFrom, primary, write_primary, answer]
  rw [written]
  refine ⟨fun takes => ?_, fun c => ?_⟩
  · exact absurd (takes primary r given) (Nat.not_lt.2 (Nat.le_succ_of_le past))
  · cases c <;> rfl

theorem refusal_of_error {inside : Inside} {s : Session} {k : Nat} {line : Text} {f : WriteFault}
    (refused : (s.writeFrom inside k line).1 = .error f) :
    ∃ first, (s.writeFrom inside k line).2.gate.refusal = some ⟨first, f⟩ := by
  rcases writeFrom_cases inside k line s with ⟨_, taken, _⟩ | ⟨_, answered, _, _, gate⟩
  · cases taken.symm.trans refused
  · rw [gate]
    exact Gate.refusal_of_answer (answered.symm.trans refused)

theorem output_modify (j : Nat) (g : Interpreter → Interpreter) (s : Session) (c : Channel) :
    (s.modify j g).output c = s.output c := by
  cases c <;> rfl

theorem bare_complain (c : Channel) (t : Text) (s : Session) : (s.complain c t).bare = s.bare := by
  cases c <;> rfl

theorem bare_report (k : Nat) (d : Diagnostic) (s : Session) : (s.report k d).bare = s.bare :=
  s.report_elim k d (fun c t => bare_complain c t s) rfl

theorem bare_reports (k : Nat) (ds : List Diagnostic) (s : Session) :
    (ds.foldl (fun s d => s.report k d) s).bare = s.bare := by
  induction ds generalizing s with
  | nil => rfl
  | cons d ds ih => exact (ih _).trans (bare_report k d s)

theorem bare_writeFrom (k : Nat) (t : Text) (s : Session) :
    (s.writeFrom undisturbed k t).2.bare = s.bare := by
  unfold writeFrom
  cases s.channelOf k with
  | secondary => rfl
  | primary =>
    have quiet : (s.interrupted undisturbed).bare = s.bare := by
      simp [interrupted, letIn, undisturbed, bare, drain]
    rw [write_primary]
    cases (s.interrupted undisturbed).gate.answer s.gate.writes with
    | error _ => exact quiet
    | ok _ => exact quiet

theorem bare_dumpTokens (k : Nat) (rows : List Text) (s : Session) :
    (dumpTokens undisturbed k rows s).bare = s.bare :=
  dumpTokens_keeps (P := fun s' => s'.bare = s.bare)
    (fun t s' same => (bare_writeFrom k t s').trans same) rows rfl

theorem bare_modify {s s' : Session} (same : s'.bare = s.bare) (k : Nat)
    (f : Interpreter → Interpreter) : (s'.modify k f).bare = (s.modify k f).bare :=
  congrArg (modify k f) same

theorem bare_gate {s s' : Session} (same : s'.bare = s.bare) (g : Gate) :
    ({ s' with gate := g } : Session).bare = ({ s with gate := g } : Session).bare := by
  have left := congrArg (fun t : Session => ({ t with gate := { g with writes := 0 } } : Session)) same
  exact left

theorem output_report (c : Channel) (k : Nat) (d : Diagnostic) (s : Session) :
    (s.report k d).output c = s.output c :=
  s.report_elim k d (fun c' t => output_of_mute (mute_complain c' t s) c) rfl

theorem output_reports (c : Channel) (k : Nat) (ds : List Diagnostic) (s : Session) :
    (ds.foldl (fun s d => s.report k d) s).output c = s.output c := by
  induction ds generalizing s with
  | nil => rfl
  | cons d ds ih => exact (ih _).trans (output_report c k d s)

theorem dumpTokens_of_refused {s : Session} {k : Nat} (refused : ¬ s.Takes k) (rows : List Text)
    (c : Channel) : (dumpTokens undisturbed k rows s).output c = s.output c := by
  induction rows generalizing s with
  | nil => rfl
  | cons row rows ih =>
    obtain ⟨still, same⟩ := writeFrom_of_refused refused row
    exact (ih still).trans (same c)

/-- The rows of a dump are shown on the channel of the interpreter until one of them is refused. -/
theorem output_dumpTokens (k : Nat) (rows : List Text) (s : Session) :
    ∃ taken, taken <+: rows ∧ (s.gate.refusal = none → taken = rows) ∧
      ∀ c, (dumpTokens undisturbed k rows s).output c =
        s.output c ++ if c = s.channelOf k then taken.flatten else [] := by
  induction rows generalizing s with
  | nil => exact ⟨[], List.prefix_rfl, fun _ => rfl, fun c => by simp [dumpTokens]⟩
  | cons row rows ih =>
    by_cases takes : s.Takes k
    · obtain ⟨s', written, shown⟩ := writeFrom_of_takes takes row
      have left := bare_writeFrom k row s
      rw [written] at left
      obtain ⟨taken, short, all, later⟩ := ih s'
      refine ⟨row :: taken, List.cons_prefix_cons.2 ⟨rfl, short⟩, fun unrefused => ?_, fun c => ?_⟩
      · rw [all ((refusal_of_bare left).trans unrefused)]
      · rw [dumpTokens, written, later c, shown c, channelOf_of_bare left, List.append_assoc]
        split <;> simp
    · refine ⟨[], List.nil_prefix, fun unrefused => absurd (takes_of_unrefused unrefused k) takes,
        fun c => ?_⟩
      rw [dumpTokens_of_refused takes]
      simp

end Session

end StackScript
