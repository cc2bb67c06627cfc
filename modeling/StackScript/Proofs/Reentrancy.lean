import StackScript.Proofs.Session.Input

/-! Calls from inside the writes of a running program. Of those made on the interpreter that runs it,
the ones that would run, reset or duplicate the interpreter are turned away, and none of them touches
its machine. So the program goes on as if nothing had been called, as long as its lines are answered
as they would have been; and behind it the interpreter is idle. -/

namespace StackScript

/-- A call that may be made on an interpreter while it runs. -/
def Call.Reentrant : Call → Prop
  | .setOutput _ | .setErrorOutput _ => False
  | _ => True

/-- A running interpreter: of what it was when it accepted its input only the machine, which is of some
kind, and the last error can have changed. -/
def Interpreter.Running (accepted : Interpreter) (M : Machine → Prop) (j : Interpreter) : Prop :=
  ∃ m e, M m ∧ j = { accepted with machine := m, lastError := e }

abbrev Interpreter.AtWork (accepted : Interpreter) : Interpreter → Prop := accepted.Running fun _ => True

namespace Session

theorem steadfast_running (accepted : Interpreter) (busy : accepted.busy = true) (M : Machine → Prop) :
    Steadfast Call.Reentrant (accepted.Running M) where
  busy := by
    rintro _ ⟨m, e, _, rfl⟩
    exact busy
  call := by
    rintro c _ reentrant ⟨m, e, kind, rfl⟩
    cases c with
    | interpret file source => exact ⟨m, some .busy, kind, rfl⟩
    | setOutput | setErrorOutput => exact absurd reentrant id
    | reset | duplicate | globals | listing => exact ⟨m, e, kind, rfl⟩

/-- The lines that the program of an input hands over. -/
def printed (inside : Inside) (target : Nat) (file source : Text) (s : Session) : List Handed :=
  let start := s.opened inside target file source
  match compile file source with
  | .ok p => Machine.handed (start.hostAt inside target) start.fuel p (start.machineAt target) start
  | .error _ => []

/-- How a write of some number is answered, counted from when an input was accepted. -/
def answerAt (c : Channel) (g : Gate) (n : Nat) : Except WriteFault Unit :=
  match c with
  | .primary => g.answer (g.writes + n)
  | .secondary => .ok ()

/-- The calls inside write nothing. -/
def Silent (target : Nat) (P : Interpreter → Prop) (inside : Inside) : Prop :=
  ∀ n s, s.Has target P → (inside n s).2.gate.writes = s.gate.writes

theorem silent_undisturbed (target : Nat) (P : Interpreter → Prop) : Silent target P undisturbed :=
  fun _ _ _ => rfl

section

variable {target : Nat} {P : Interpreter → Prop} {A : Call → Prop} {s : Session}

theorem request_silent (steadfast : Steadfast A P) {r : Request} (own : r.All fun k _ => k = target)
    (has : s.Has target P) : (request r s).2.gate = s.gate := by
  obtain ⟨k, c, inside, refusal⟩ := r
  obtain ⟨rfl, _⟩ := own
  obtain ⟨i, found, kind⟩ := has
  unfold request
  split
  · exact (call_of_busy found (steadfast.busy kind) undisturbed c).2.2.1
  · rfl

theorem requests_silent (steadfast : Steadfast A P) {rs : List Request}
    (allowed : ∀ r ∈ rs, r.All fun k c => k = target → A c)
    (own : ∀ r ∈ rs, r.All fun k _ => k = target) (has : s.Has target P) :
    (requests rs s).2.gate = s.gate := by
  induction rs generalizing s with
  | nil =>
    unfold requests
    rfl
  | cons r rs ih =>
    obtain ⟨first, rest⟩ := List.forall_mem_cons.1 allowed
    obtain ⟨ownFirst, ownRest⟩ := List.forall_mem_cons.1 own
    unfold requests
    exact (ih rest ownRest (request_turnedAway steadfast r first s has).1).trans
      (request_silent steadfast ownFirst has)

theorem requestsAt_silent (steadfast : Steadfast A P) {inside : List (List Request)}
    (allowed : ∀ rs ∈ inside, ∀ r ∈ rs, r.All fun k c => k = target → A c)
    (own : ∀ rs ∈ inside, ∀ r ∈ rs, r.All fun k _ => k = target) :
    Silent target P (requestsAt inside) := by
  intro n s has
  induction inside generalizing n with
  | nil =>
    unfold requestsAt
    rfl
  | cons rs later ih =>
    obtain ⟨first, rest⟩ := List.forall_mem_cons.1 allowed
    obtain ⟨ownFirst, ownRest⟩ := List.forall_mem_cons.1 own
    unfold requestsAt
    cases n with
    | zero => exact congrArg Gate.writes (requests_silent steadfast first ownFirst has)
    | succ n => exact ih rest ownRest n

end

section

variable {target : Nat} {P : Interpreter → Prop} {rows : List (List Request)} {inside : Inside}
  {start s : Session} {c : Channel} {n : Nat}

structure Counted (target : Nat) (P : Interpreter → Prop) (rows : List (List Request)) (c : Channel)
    (start : Session) (n : Nat) (s : Session) : Prop where
  held : Held target P rows start s
  writes : c = .primary → s.gate.writes = start.gate.writes + n

theorem Held.channelOf (held : Held target P rows start s) (out : ∀ j, P j → j.out = c) :
    s.channelOf target = c := by
  obtain ⟨j, found, kind⟩ := held.has
  simp only [Session.channelOf, found, Option.map_some, Option.getD_some, out j kind]

theorem Counted.writeFrom (h : Counted target P rows c start n s)
    (admits : Admits target P rows inside) (silent : Silent target P inside)
    (out : ∀ j, P j → j.out = c) (t : Text) :
    (s.writeFrom inside target t).1 = answerAt c start.gate n ∧
      Counted target P rows c start (n + 1) (s.writeFrom inside target t).2 := by
  have channel := h.held.channelOf out
  have held := h.held.writeFrom (k := target) admits t
  rcases writeFrom_cases inside target t s with ⟨other, answered, _⟩ | ⟨primary, answered, _, _, gate⟩
  · obtain rfl := channel.symm.trans other
    exact ⟨answered, held, nofun⟩
  · obtain rfl := channel.symm.trans primary
    refine ⟨?_, held, fun _ => ?_⟩
    · rw [answered, h.held.answer admits, h.writes rfl]
      rfl
    · have still := silent s.gate.writes
        { s with gate := { s.gate with writes := s.gate.writes + 1 } } h.held.has
      rw [gate]
      exact still.trans (congrArg (· + 1) (h.writes rfl))

theorem Counted.complain (h : Counted target P rows c start n s) (d : Channel) (t : Text) :
    Counted target P rows c start n (s.complain d t) :=
  ⟨h.held.complain d t, by rw [gate_complain]; exact h.writes⟩

theorem Counted.dumpTokens (h : Counted target P rows c start n s)
    (admits : Admits target P rows inside) (silent : Silent target P inside)
    (out : ∀ j, P j → j.out = c) (lines : List Text) :
    Counted target P rows c start (n + lines.length) (dumpTokens inside target lines s) := by
  induction lines generalizing n s with
  | nil => exact h
  | cons line lines ih =>
    rw [List.length_cons, Nat.add_comm lines.length, ← Nat.add_assoc]
    exact ih (h.writeFrom admits silent out line).2

end

section

variable {target : Nat} {rows : List (List Request)} {inside : Inside} {s : Session} {i : Interpreter}
  {file source : Text} {p : Program}

theorem accepted_running (i : Interpreter) (file source : Text) :
    (i.accept file source).Running (· = i.machine) (i.accept file source) := ⟨_, _, rfl, rfl⟩

theorem opened_machine (found : s.interpreters[target]? = some i)
    (admits : ∀ M, Admits target ((i.accept file source).Running M) rows inside) :
    let start := s.opened inside target file source
    (∃ j, start.interpreters[target]? = some j) ∧ start.fuel = s.fuel ∧
      start.machineAt target = i.machine ∧
      start.hostAt inside target = host inside target i.options.debug := by
  have held := held_opened (admits _) found (accepted_running i file source)
  obtain ⟨_, there, m, e, rfl, rfl⟩ := held.has
  refine ⟨⟨_, there⟩, held.fuel, (machineAt_of_found there).trans rfl, ?_⟩
  simp only [hostAt, there]
  rfl

/-- The machine that an interpreter holds behind a write of its program is the one that wrote. -/
theorem machineAt_write {accepted : Interpreter}
    (admits : ∀ M, Admits target (accepted.Running M) rows inside) {M : Machine → Prop}
    (has : s.Has target (accepted.Running M)) (debug : Bool) (m : Machine) (line : Text) :
    ((host inside target debug).write m line s).2.machineAt target = m := by
  have stored : (s.modify target ({ · with machine := m })).Has target (accepted.Running (· = m)) := by
    refine has.modify ?_
    rintro _ ⟨m', e, _, rfl⟩
    exact ⟨m, e, rfl, rfl⟩
  have begun : Held target (accepted.Running (· = m)) rows s
    (s.modify target ({ · with machine := m })) := .begin stored rfl rfl
  obtain ⟨_, there, _, _, rfl, rfl⟩ := (begun.writeFrom (k := target) (admits _) line).has
  exact (machineAt_of_found there).trans rfl

theorem running_machine {accepted : Interpreter} (m : Machine) (j : Interpreter)
    (running : accepted.AtWork j) :
    accepted.AtWork { j with machine := m } := by
  obtain ⟨_, e, _, rfl⟩ := running
  exact ⟨m, e, trivial, rfl⟩

/-- A run which takes up, behind each line, the machine that the interpreter holds then. -/
theorem runShared_opened (found : s.interpreters[target]? = some i)
    (admits : ∀ M, Admits target ((i.accept file source).Running M) rows inside) (p : Program) :
    let start := s.opened inside target file source
    Machine.runShared (start.hostAt inside target) (machineAt target) p start.fuel
        ((start.machineAt target).load p) start =
      Machine.runFrom (start.hostAt inside target) p start.fuel ((start.machineAt target).load p) start := by
  have held : Held target (i.accept file source).AtWork rows s
    (s.opened inside target file source) := held_opened (admits _) found ⟨_, _, trivial, rfl⟩
  exact Machine.runShared_eq ((Held.bears (admits _) running_machine).host _)
    (fun m line s held => machineAt_write admits held.has _ m line) _ _ held

theorem interpret_ran (found : s.interpreters[target]? = some i) (idle : i.busy = false)
    (admits : ∀ M, Admits target ((i.accept file source).Running M) rows inside)
    (compiled : compile file source = .ok p) :
    let r := i.machine.run (host inside target i.options.debug) s.fuel p
      (s.opened inside target file source)
    (s.interpret inside target file source).1 = (Verdict.ended r.1).outcome ∧
      (s.interpret inside target file source).2.machineAt target = r.2.1 := by
  intro r
  obtain ⟨⟨j, there⟩, fuel, machine, hosted⟩ := opened_machine found admits
  have held : Held target (i.accept file source).AtWork rows s
    (s.opened inside target file source) := held_opened (admits _) found ⟨_, _, trivial, rfl⟩
  have after : Held target (i.accept file source).AtWork rows s r.2.2 :=
    Machine.run_keeps ((Held.bears (admits _) running_machine).host _) _ _ held
  obtain ⟨j', there', _⟩ := after.has
  have same : (s.opened inside target file source).ran inside target p = r := by
    rw [ran, fuel, machine, hosted]
  rw [interpret_of_program found idle compiled there, same]
  exact ⟨rfl, machineAt_of_found (interpreters_release (interpreters_concluded there'))⟩

theorem interpret_faulty {ds : List Diagnostic} (found : s.interpreters[target]? = some i)
    (idle : i.busy = false)
    (admits : ∀ M, Admits target ((i.accept file source).Running M) rows inside)
    (faulty : compile file source = .error ds) :
    (s.interpret inside target file source).1 = .compileError ∧
      (s.interpret inside target file source).2.machineAt target = i.machine := by
  have held := held_opened (admits _) found (accepted_running i file source)
  obtain ⟨j, there, running⟩ := held.has
  have known := interpreters_failWith there (.faults ds)
  rw [← interpreters_reports _ target ds] at known
  obtain ⟨m, e, rfl, rfl⟩ := running
  rw [interpret_of_faults found idle faulty]
  exact ⟨rfl, (machineAt_of_found (interpreters_release known)).trans rfl⟩

/-- The lines of tokens that are shown ahead of a program. -/
def shown (target : Nat) (file source : Text) (s : Session) : Nat :=
  if (s.interpreters[target]?).elim false (·.options.printTokens) then
    (TokenDump.rows file source).length
  else 0

theorem running_out {accepted : Interpreter} {M : Machine → Prop} (j : Interpreter)
    (running : accepted.Running M j) : j.out = accepted.out := by
  obtain ⟨_, _, _, rfl⟩ := running
  rfl

/-- With silent calls inside, the lines of a program are answered by their numbers. -/
theorem answer_of_silent (found : s.interpreters[target]? = some i)
    (admits : Admits target (i.accept file source).AtWork rows inside)
    (silent : Silent target (i.accept file source).AtWork inside) {n : Nat} {a : Handed}
    (nth : (s.printed inside target file source)[n]? = some a) :
    a.2 = answerAt i.out s.gate (s.shown target file source + n) := by
  have begun : Counted target (i.accept file source).AtWork rows i.out s 0
      (s.modify target (·.accept file source)) := by
    refine ⟨.begin ⟨i.accept file source, ?_, _, _, trivial, rfl⟩ rfl rfl, fun _ => rfl⟩
    rw [interpreters_modify, if_pos rfl, found]
    rfl
  have counted : Counted target (i.accept file source).AtWork rows i.out s
      (s.shown target file source) (s.opened inside target file source) := by
    unfold opened shown
    dsimp only
    split
    · have dumped := begun.dumpTokens admits silent running_out (TokenDump.rows file source)
      rwa [Nat.zero_add] at dumped
    · exact begun
  unfold printed at nth
  dsimp only at nth
  split at nth
  · refine Machine.answer_of_handed (fun n => answerAt i.out s.gate (s.shown target file source + n))
      (fun n => Counted target (i.accept file source).AtWork rows i.out s
        (s.shown target file source + n)) (fun n m line s' h => ?_) (fun n p m x s' h => ?_) counted nth
    · exact Counted.writeFrom ⟨(Held.bears admits running_machine).machine m h.held, h.writes⟩ admits
        silent running_out line
    · exact trace_keeps (fun c t s h => h.complain c t) _ p m x h
  · simp at nth

theorem answer_of_unrefused (found : s.interpreters[target]? = some i)
    (admits : Admits target (i.accept file source).AtWork rows inside)
    (unrefused : s.gate.refusal = none) {n : Nat} {a : Handed}
    (nth : (s.printed inside target file source)[n]? = some a) : a.2 = .ok () := by
  have held : Held target (i.accept file source).AtWork rows s
    (s.opened inside target file source) := held_opened admits found ⟨_, _, trivial, rfl⟩
  have bears : Bears inside target (Held target (i.accept file source).AtWork rows s) :=
    Held.bears admits running_machine
  unfold printed at nth
  dsimp only at nth
  split at nth
  · refine Machine.answer_of_handed (fun _ => .ok ()) (fun _ => Held target
      (i.accept file source).AtWork rows s)
      (fun n m line s' h => ⟨?_, (bears.host _).write m line h⟩)
      (fun n p m x s' h => (bears.host _).trace p m x h) held nth
    have stored := bears.machine m h
    rcases writeFrom_cases inside target line (s'.modify target ({ · with machine := m })) with
      ⟨_, answered, _⟩ | ⟨_, answered, _⟩
    · exact answered
    · refine answered.trans ((stored.answer admits _).trans ?_)
      rw [Gate.answer, unrefused]
  · simp at nth

/-- What two inputs come to whose lines are answered alike, whatever is called inside them. -/
theorem interpret_eq_of_answeredAlike {rows' : List (List Request)} {inside' : Inside}
    (found : s.interpreters[target]? = some i) (idle : i.busy = false)
    (admits : ∀ M, Admits target ((i.accept file source).Running M) rows inside)
    (admits' : ∀ M, Admits target ((i.accept file source).Running M) rows' inside')
    (alike : AnsweredAlike (s.printed inside target file source) (s.printed inside' target file source)) :
    s.printed inside target file source = s.printed inside' target file source ∧
      (s.interpret inside target file source).1 = (s.interpret inside' target file source).1 ∧
      (s.interpret inside target file source).2.machineAt target =
        (s.interpret inside' target file source).2.machineAt target := by
  cases compiled : compile file source with
  | error ds =>
    obtain ⟨outcome, machine⟩ := interpret_faulty found idle admits compiled
    obtain ⟨outcome', machine'⟩ := interpret_faulty found idle admits' compiled
    refine ⟨by simp only [printed, compiled], outcome.trans outcome'.symm, machine.trans machine'.symm⟩
  | ok p =>
    obtain ⟨_, fuel, machine, hosted⟩ := opened_machine found admits
    obtain ⟨_, fuel', machine', hosted'⟩ := opened_machine found admits'
    obtain ⟨outcome, left⟩ := interpret_ran found idle admits compiled
    obtain ⟨outcome', left'⟩ := interpret_ran found idle admits' compiled
    simp only [printed, compiled, fuel, machine, hosted, fuel', machine', hosted'] at alike ⊢
    obtain ⟨lines, endings, machines⟩ := Machine.run_eq_of_answeredAlike alike
    rw [outcome, outcome', left, left', endings, machines]
    exact ⟨lines, rfl, rfl⟩

end

section

variable {target : Nat} {s : Session} {i : Interpreter}

/-- Calls made from inside the writes of a running program, at any depth, that include any calls on
other interpreters. Each one on the running interpreter is turned away if it would run, reset or
duplicate it, and leaves all of it but its last error; the run, which could take up the machine from
the interpreter behind each line, has the same lines, outcome and machine as without the calls, if
its lines are answered alike, as they are where no write is refused or nothing is called on others;
and then the interpreter is idle. -/
theorem reentrant_calls_disturb_nothing (found : s.interpreters[target]? = some i)
    (idle : i.busy = false) (file source : Text) (inside : List (List Request))
    (reentrant : ∀ rs ∈ inside, ∀ r ∈ rs, r.All fun k c => k = target → c.Reentrant) :
    let disturbed := s.interpret (requestsAt inside) target file source
    let alone := s.interpret undisturbed target file source
    let start := s.opened (requestsAt inside) target file source
    (∃ made answers, disturbed.2.gate.inside = s.gate.inside ++ answers ∧
      made.Sublist inside.flatten ∧ List.Forall₂ (TurnedAway target) made answers) ∧
    (∀ rs ∈ inside, ∀ r ∈ rs, ∀ (s' : Session) (j : Interpreter),
      s'.interpreters[target]? = some j → j.busy = true →
        ∃ e, (request r s').2.interpreters[target]? = some { j with lastError := e }) ∧
    (∀ p, compile file source = .ok p →
      Machine.runShared (start.hostAt (requestsAt inside) target) (machineAt target) p start.fuel
          ((start.machineAt target).load p) start =
        Machine.runFrom (start.hostAt (requestsAt inside) target) p start.fuel
          ((start.machineAt target).load p) start) ∧
    (s.gate.refusal = none ∨ (∀ rs ∈ inside, ∀ r ∈ rs, r.All fun k _ => k = target) ∨
        AnsweredAlike (s.printed (requestsAt inside) target file source)
          (s.printed undisturbed target file source) →
      s.printed (requestsAt inside) target file source = s.printed undisturbed target file source ∧
        disturbed.1 = alone.1 ∧ disturbed.2.machineAt target = alone.2.machineAt target) ∧
    ∃ m e, disturbed.2.interpreters[target]? =
      some { i.accept file source with machine := m, lastError := e, busy := false } := by
  intro disturbed alone start
  have steadfast (M : Machine → Prop) := steadfast_running (i.accept file source) rfl M
  have admits (M : Machine → Prop) := requestsAt_turnedAway (steadfast M) inside reentrant
  have quiet (M : Machine → Prop) := admits_undisturbed target ((i.accept file source).Running M)
  obtain ⟨last, j, held, running, _, gate, after⟩ :=
    interpret_course found idle (admits fun _ => True) ⟨_, _, trivial, rfl⟩ running_machine
  refine ⟨?_, ?_, ?_, ?_, ?_⟩
  · obtain ⟨made, answers, noted, short, turned⟩ := held.booked
    refine ⟨made, answers, ?_, short.trans (flatten_sublist_of_isPrefix (List.take_prefix _ _)), turned⟩
    rw [← noted]
    exact congrArg Gate.inside gate
  · intro rs row r mem s' j there busy
    obtain ⟨⟨_, there', m, e, rfl, rfl⟩, _⟩ := request_turnedAway
      (steadfast_running j busy (· = j.machine)) r (reentrant rs row r mem) s'
      ⟨j, there, j.machine, j.lastError, rfl, rfl⟩
    exact ⟨e, there'⟩
  · intro p _
    exact runShared_opened found admits p
  · intro answered
    refine interpret_eq_of_answeredAlike found idle admits quiet ?_
    rcases answered with unrefused | own | alike
    · intro n a b left right
      exact (answer_of_unrefused found (admits _) unrefused left).trans
        (answer_of_unrefused found (quiet _) unrefused right).symm
    · intro n a b left right
      have silent := requestsAt_silent (steadfast fun _ => True) reentrant own
      exact (answer_of_silent found (admits _) silent left).trans
        (answer_of_silent found (quiet _) (silent_undisturbed _ _) right).symm
    · exact alike
  · obtain ⟨m, e, _, rfl⟩ := running
    exact ⟨m, _, after⟩

theorem reentrant_calls_disturb_nothing_print :
    let calls : List Request := [.mk 0 (.interpret (utf8 "u") (utf8 "print 2;")) [] none,
      .mk 0 .duplicate [] none, .mk 0 .reset [] none]
    let disturbed := (new {}).interpret (requestsAt [calls]) 0 (utf8 "t") (utf8 "let a = 1; print a;")
    let alone := (new {}).interpret undisturbed 0 (utf8 "t") (utf8 "let a = 1; print a;")
    (∀ rs ∈ [calls], ∀ r ∈ rs, r.All fun k c => k = 0 → c.Reentrant) ∧ disturbed.1 = alone.1 ∧
      disturbed.2.machineAt 0 = alone.2.machineAt 0 := by
  intro calls
  have found : (new {}).interpreters[0]? = some (Interpreter.new {}) := rfl
  have idle : (Interpreter.new {}).busy = false := rfl
  have unrefused : (new {}).gate.refusal = none := rfl
  have single {c : Call} (h : c.Reentrant) :
      (Request.mk 0 c [] none).All fun k c => k = 0 → c.Reentrant := .mk (fun _ => h) (by simp)
  have reentrant : ∀ rs ∈ [calls], ∀ r ∈ rs, r.All fun k c => k = 0 → c.Reentrant := by
    simp only [calls, List.forall_mem_cons]
    exact ⟨⟨single trivial, single trivial, single trivial, by simp⟩, by simp⟩
  have whole := reentrant_calls_disturb_nothing found idle (utf8 "t") (utf8 "let a = 1; print a;")
    [calls] reentrant
  exact ⟨reentrant, (whole.2.2.2.1 (.inl unrefused)).2⟩

end

end Session

end StackScript
