import StackScript.Proofs.Session.Input

/-! The error that an interpreter knows of when an input has been dealt with. It is the error of that
input, with one exception: an input that went well leaves the word that the interpreter is busy, if
an input was offered to the interpreter meanwhile. -/

namespace StackScript

def Call.IsInput : Call → Prop
  | .interpret _ _ => True
  | _ => False

namespace Session

/-- Whatever is called on a busy interpreter, it knows of no error but that it is busy. -/
theorem steadfast_error : Steadfast (fun _ => True)
    fun i => i.busy = true ∧ (i.lastError = none ∨ i.lastError = some .busy) where
  busy h := h.1
  call {c i} _ h := by
    cases c with
    | interpret file source => exact ⟨h.1, .inr rfl⟩
    | reset | duplicate | globals | listing | setOutput | setErrorOutput => exact h

theorem steadfast_noError :
    Steadfast (fun c => ¬ c.IsInput) fun i => i.busy = true ∧ i.lastError = none where
  busy h := h.1
  call {c i} calm h := by
    cases c with
    | interpret file source => exact absurd trivial calm
    | reset | duplicate | globals | listing | setOutput | setErrorOutput => exact h

end Session

theorem Verdict.error_eq_none_iff (v : Verdict) :
    v.error = none ↔ v.outcome = .ok ∨ v.outcome = .unknown := by
  cases v with
  | rejected | faulty => simp [error, outcome]
  | ended ending => cases ending <;> simp [error, outcome]

namespace Session

variable {s : Session} {target : Nat} {i : Interpreter} {file source : Text}
  {inside : List (List Request)}

theorem lastError_of_found (found : s.interpreters[target]? = some i) :
    s.lastError target = i.lastError := by
  rw [lastError, found]
  rfl

theorem reply_of_input (s : Session) (inside : Inside) (target : Nat) (file source : Text) :
    (s.call inside target (.interpret file source)).1 =
      .interpreted (s.interpret inside target file source).1
        ((s.interpret inside target file source).2.lastError target) := rfl

theorem lastError_of_busy (found : s.interpreters[target]? = some i) (busy : i.busy = true) :
    (s.interpret (requestsAt inside) target file source).2.lastError target = some .busy := by
  rw [interpret_of_busy found busy]
  refine lastError_of_found (i := { i with lastError := some .busy }) ?_
  rw [interpreters_report, interpreters_failWith found]

/-- An interpreter that was idle knows of the error of the verdict, or of the one that it knew of last
when it was busy. -/
theorem lastError_of_idle (file source : Text) {A : Call → Prop} {P : Interpreter → Prop}
    (found : s.interpreters[target]? = some i) (idle : i.busy = false) (steadfast : Steadfast A P)
    (allowed : ∀ rs ∈ inside, ∀ r ∈ rs, r.All fun k c => k = target → A c)
    (accepted : P (i.accept file source))
    (machine : ∀ (m : Machine) (j : Interpreter), P j → P { j with machine := m }) :
    let r := s.interpret (requestsAt inside) target file source
    let verdict := s.verdict (requestsAt inside) target file source
    r.1 = verdict.outcome ∧ ∃ j, P j ∧ r.2.lastError target = verdict.error.or j.lastError := by
  obtain ⟨_, j, _, kind, outcome, _, after⟩ :=
    interpret_course found idle (requestsAt_turnedAway steadfast inside allowed) accepted machine
  exact ⟨outcome, j, kind, lastError_of_found after⟩

/-- Any input, in any session and with any calls inside its writes: its outcome is that of its verdict,
and the error known behind it is the error of the verdict, unless the input went well and another
one was offered to the interpreter meanwhile. -/
theorem last_error_of_input (s : Session) (target : Nat) (file source : Text)
    (inside : List (List Request)) :
    let verdict := s.verdict (requestsAt inside) target file source
    ∃ e, (s.call (requestsAt inside) target (.interpret file source)).1 =
        .interpreted verdict.outcome e ∧
      (verdict.error = none ↔ verdict.outcome = .ok ∨ verdict.outcome = .unknown) ∧
      (e = verdict.error ∨ verdict.error = none ∧ e = some .busy ∧
        ¬ ∀ rs ∈ inside, ∀ r ∈ rs, r.All fun k c => k = target → ¬ c.IsInput) := by
  intro verdict
  rw [reply_of_input]
  rcases found : s.interpreters[target]? with _ | i
  · -- There is no such interpreter.
    have missing : s.interpret (requestsAt inside) target file source = (.unknown, s) := by
      simp only [interpret, found]
    have judged : verdict = .ended .unfinished := by simp only [verdict, Session.verdict, found]
    rw [missing, judged]
    exact ⟨_, rfl, Verdict.error_eq_none_iff _, .inl (by simp only [lastError, found]; rfl)⟩
  cases busy : i.busy with
  | true =>
    have judged : verdict = .rejected := by
      simp only [verdict, Session.verdict, found, busy, if_true]
    rw [lastError_of_busy found busy, interpret_of_busy found busy, judged]
    exact ⟨_, rfl, Verdict.error_eq_none_iff _, .inl rfl⟩
  | false =>
    by_cases calm : ∀ rs ∈ inside, ∀ r ∈ rs, r.All fun k c => k = target → ¬ c.IsInput
    · obtain ⟨outcome, j, ⟨_, kind⟩, known⟩ := lastError_of_idle file source found busy
        steadfast_noError calm ⟨rfl, rfl⟩ (fun _ _ h => h)
      rw [outcome, known, kind, Option.or_none]
      exact ⟨_, rfl, Verdict.error_eq_none_iff _, .inl rfl⟩
    · obtain ⟨outcome, j, ⟨_, kind⟩, known⟩ := lastError_of_idle file source found busy
        steadfast_error (fun _ _ r _ => r.all_of_forall fun _ _ _ => trivial) ⟨rfl, .inl rfl⟩
        (fun _ _ h => h)
      rw [outcome, known]
      refine ⟨_, rfl, Verdict.error_eq_none_iff _, ?_⟩
      change verdict.error.or j.lastError = verdict.error ∨ verdict.error = none ∧ _
      cases own : verdict.error with
      | some e => exact .inl rfl
      | none =>
        rcases kind with kind | kind
        · exact .inl (by rw [kind]; rfl)
        · exact .inr ⟨rfl, by rw [kind]; rfl, calm⟩

/-- An input can go well and yet leave an error: that of an input offered from inside a write. -/
theorem error_known_though_ok : ¬ ∀ (s : Session) (target : Nat) (file source : Text)
    (inside : List (List Request)) (outcome : Outcome) (e : Option InputError),
    (s.call (requestsAt inside) target (.interpret file source)).1 = .interpreted outcome e →
      (e = none ↔ outcome = .ok) := by
  intro law
  let inner := Request.mk 0 (.interpret (utf8 "u") (utf8 "print 2;")) [] none
  let r := (Session.new {}).interpret (requestsAt [[inner]]) 0 (utf8 "t") (utf8 "print 1;")
  have ran : (r.1, r.2.lastError 0) = (.ok, some .busy) := by decide +kernel
  obtain ⟨ok, known⟩ := Prod.mk.inj ran
  have none := (law _ _ _ _ _ _ _ (reply_of_input _ (requestsAt [[inner]]) 0 _ _)).2 ok
  exact absurd (known.symm.trans none) (by simp)

end Session

end StackScript
