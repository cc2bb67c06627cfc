import StackScript.Proofs.Session.Busy

/-! How an interpreter takes in an input. It rejects the input if it is busy, finds faults in it, or
runs its program to an end. It is busy from when it has accepted the input until then, so what is
called on it meanwhile is turned away; and then it is idle again. -/

namespace StackScript

/-- What an interpreter makes of an input. -/
inductive Verdict where
  | rejected
  | faulty (ds : List Diagnostic)
  | ended (ending : Ending)

namespace Verdict

def outcome : Verdict → Outcome
  | .rejected => .runtimeError
  | .faulty _ => .compileError
  | .ended .finished => .ok
  | .ended (.failed _) => .runtimeError
  | .ended .unfinished => .unknown

def error : Verdict → Option InputError
  | .rejected => some .busy
  | .faulty ds => some (.faults ds)
  | .ended (.failed e) => some (.runtime e)
  | .ended _ => none

end Verdict

namespace Session

def machineAt (target : Nat) (s : Session) : Machine :=
  (s.interpreters[target]?).elim {} (·.machine)

/-- The host that an interpreter is to its program. -/
def hostAt (inside : Inside) (target : Nat) (s : Session) : Host Session :=
  host inside target ((s.interpreters[target]?).elim false (·.options.debug))

def ran (inside : Inside) (target : Nat) (p : Program) (s : Session) : Ending × Machine × Session :=
  (s.machineAt target).run (s.hostAt inside target) s.fuel p s

/-- The session in which an input was accepted and, if this is wanted, its tokens were shown. -/
def opened (inside : Inside) (target : Nat) (file source : Text) (s : Session) : Session :=
  let started := s.modify target (·.accept file source)
  if (s.interpreters[target]?).elim false (·.options.printTokens) then
    dumpTokens inside target (TokenDump.rows file source) started
  else started

def verdict (inside : Inside) (target : Nat) (file source : Text) (s : Session) : Verdict :=
  match s.interpreters[target]? with
  | none => .ended .unfinished
  | some i =>
    if i.busy then .rejected
    else
      match compile file source with
      | .error ds => .faulty ds
      | .ok p => .ended ((s.opened inside target file source).ran inside target p).1

/-- The session behind a run: if the program has failed, its error is known and shown. -/
def concluded (target : Nat) (r : Ending × Machine × Session) : Session :=
  let s := r.2.2.modify target ({ · with machine := r.2.1 })
  match r.1 with
  | .failed e => (s.failWith target (.runtime e)).report target e.diagnostic
  | _ => s

section

variable {inside : Inside} {target : Nat} {file source : Text} {i j : Interpreter} {s : Session}
  {ds : List Diagnostic} {p : Program}

theorem machineAt_of_found (found : s.interpreters[target]? = some i) :
    s.machineAt target = i.machine := by
  simp [machineAt, found]

theorem interpret_of_busy (found : s.interpreters[target]? = some i) (busy : i.busy = true) :
    s.interpret inside target file source =
      (.runtimeError, (s.failWith target .busy).report target { message := busyMessage }) := by
  simp only [interpret, found, busy, if_true]

theorem interpret_of_faults (found : s.interpreters[target]? = some i) (idle : i.busy = false)
    (faulty : compile file source = .error ds) :
    s.interpret inside target file source = (.compileError, release target (ds.foldl
      (fun s d => s.report target d) ((s.opened inside target file source).failWith target (.faults ds)))) := by
  simp only [interpret, opened, found, idle, Bool.false_eq_true, if_false, runInput, faulty, Option.elim]

theorem runProgram_eq (there : s.interpreters[target]? = some j) :
    s.runProgram inside target p =
      ((Verdict.ended (s.ran inside target p).1).outcome, concluded target (s.ran inside target p)) := by
  simp only [runProgram, ran, machineAt, hostAt, there, Option.elim]
  rcases Machine.run _ s.fuel p j.machine s with ⟨_ | _ | _, m, s'⟩
  all_goals rfl

theorem interpret_of_program (found : s.interpreters[target]? = some i)
    (idle : i.busy = false) (compiled : compile file source = .ok p)
    (there : (s.opened inside target file source).interpreters[target]? = some j) :
    s.interpret inside target file source =
      let r := (s.opened inside target file source).ran inside target p
      ((Verdict.ended r.1).outcome, release target (concluded target r)) := by
  have started : s.interpret inside target file source =
      let r := (s.opened inside target file source).runProgram inside target p
      (r.1, release target r.2) := by
    simp only [interpret, opened, found, idle, Bool.false_eq_true, if_false, runInput, compiled,
      Option.elim]
  rw [started, runProgram_eq there]

theorem verdict_of_faults (found : s.interpreters[target]? = some i) (idle : i.busy = false)
    (faulty : compile file source = .error ds) :
    s.verdict inside target file source = .faulty ds := by
  simp only [verdict, found, idle, Bool.false_eq_true, if_false, faulty]

theorem verdict_of_program (found : s.interpreters[target]? = some i) (idle : i.busy = false)
    (compiled : compile file source = .ok p) : s.verdict inside target file source =
      .ended ((s.opened inside target file source).ran inside target p).1 := by
  simp only [verdict, found, idle, Bool.false_eq_true, if_false, compiled]

theorem interpreters_release (there : s.interpreters[target]? = some j) :
    (s.release target).interpreters[target]? = some { j with busy := false } := by
  rw [release, interpreters_modify, if_pos rfl, there]
  rfl

@[simp] theorem interpreters_reports (s : Session) (target : Nat) (ds : List Diagnostic) :
    (ds.foldl (fun s d => s.report target d) s).interpreters = s.interpreters := by
  induction ds generalizing s with
  | nil => rfl
  | cons d ds ih => exact (ih _).trans (interpreters_report s target d)

@[simp] theorem gate_reports (s : Session) (target : Nat) (ds : List Diagnostic) :
    (ds.foldl (fun s d => s.report target d) s).gate = s.gate := by
  induction ds generalizing s with
  | nil => rfl
  | cons d ds ih => exact (ih _).trans (gate_report s target d)

theorem interpreters_concluded {r : Ending × Machine × Session}
    (there : r.2.2.interpreters[target]? = some j) : (concluded target r).interpreters[target]? =
      some { j with machine := r.2.1, lastError := (Verdict.ended r.1).error.or j.lastError } := by
  obtain ⟨_ | e | _, m, s⟩ := r
  all_goals simp_all [concluded, failWith, interpreters_modify, Verdict.error]

theorem gate_concluded (target : Nat) (r : Ending × Machine × Session) :
    (concluded target r).gate = r.2.2.gate := by
  obtain ⟨_ | e | _, m, s⟩ := r
  · rfl
  · exact gate_report _ _ _
  · rfl

variable {P : Interpreter → Prop} {rows : List (List Request)}

theorem held_opened (admits : Admits target P rows inside) (found : s.interpreters[target]? = some i)
    (accepted : P (i.accept file source)) :
    Held target P rows s (s.opened inside target file source) := by
  have has : (s.modify target (·.accept file source)).Has target P := by
    refine ⟨i.accept file source, ?_, accepted⟩
    rw [interpreters_modify, if_pos rfl, found]
    rfl
  have begun : Held target P rows s (s.modify target (·.accept file source)) := .begin has rfl rfl
  unfold opened
  dsimp only
  split
  · exact dumpTokens_keeps (fun t _ held => held.writeFrom admits t) _ begun
  · exact begun

/-- An input that an idle interpreter takes in, where the calls inside leave the interpreter of a kind
while it is busy. -/
theorem interpret_course (found : s.interpreters[target]? = some i) (idle : i.busy = false)
    (admits : Admits target P rows inside) (accepted : P (i.accept file source))
    (machine : ∀ (m : Machine) (j : Interpreter), P j → P { j with machine := m }) :
    let r := s.interpret inside target file source
    let verdict := s.verdict inside target file source
    ∃ (last : Session) (j : Interpreter), Held target P rows s last ∧ P j ∧ r.1 = verdict.outcome ∧
      r.2.gate = last.gate ∧ r.2.interpreters[target]? =
        some { j with lastError := verdict.error.or j.lastError, busy := false } := by
  have held := held_opened admits found accepted
  obtain ⟨j, there, kind⟩ := held.has
  cases compiled : compile file source with
  | error ds =>
    rw [interpret_of_faults found idle compiled, verdict_of_faults found idle compiled]
    refine ⟨_, j, held, kind, rfl, gate_reports _ _ _, ?_⟩
    refine interpreters_release (j := { j with lastError := some (.faults ds) }) ?_
    rw [interpreters_reports, interpreters_failWith there]
  | ok p =>
    have after : Held target P rows s ((s.opened inside target file source).ran inside target p).2.2 :=
      Machine.run_keeps ((Held.bears admits machine).host _) _ _ held
    obtain ⟨j', there', kind'⟩ := after.has
    rw [interpret_of_program found idle compiled there, verdict_of_program found idle compiled]
    exact ⟨_, _, after, machine _ j' kind', rfl, gate_concluded _ _,
      interpreters_release (interpreters_concluded there')⟩

end

end Session

end StackScript
