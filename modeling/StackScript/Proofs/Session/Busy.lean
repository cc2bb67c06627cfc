import Mathlib.Data.List.Forall2
import StackScript.Proofs.Machine.Hosts
import StackScript.Session.Basic

/-! Calls on a busy interpreter. Whatever is called while it is busy, and however deep inside other
calls, the interpreter is turned away from and only what a refused call leaves of it is changed. -/

namespace StackScript

namespace Session

theorem interpreters_modify (s : Session) (k j : Nat) (f : Interpreter → Interpreter) :
    (s.modify k f).interpreters[j]? =
      if k = j then s.interpreters[j]?.map f else s.interpreters[j]? := Array.getElem?_modify

theorem interpreters_failWith {s : Session} {k : Nat} {i : Interpreter}
    (found : s.interpreters[k]? = some i) (e : InputError) :
    (s.failWith k e).interpreters[k]? = some { i with lastError := some e } := by
  rw [failWith, interpreters_modify, if_pos rfl, found]
  rfl

@[simp] theorem interpreters_complain (s : Session) (c : Channel) (t : Text) :
    (s.complain c t).interpreters = s.interpreters := by
  cases c <;> rfl

@[simp] theorem gate_complain (s : Session) (c : Channel) (t : Text) :
    (s.complain c t).gate = s.gate := by
  cases c <;> rfl

@[simp] theorem fuel_complain (s : Session) (c : Channel) (t : Text) :
    (s.complain c t).fuel = s.fuel := by
  cases c <;> rfl

@[elab_as_elim]
theorem report_elim {P : Session → Prop} (s : Session) (k : Nat) (d : Diagnostic)
    (shown : ∀ c t, P (s.complain c t)) (silent : P s) : P (s.report k d) := by
  unfold report
  split
  · exact shown _ _
  · exact silent

@[simp] theorem interpreters_report (s : Session) (k : Nat) (d : Diagnostic) :
    (s.report k d).interpreters = s.interpreters :=
  s.report_elim k d (interpreters_complain s) rfl

@[simp] theorem gate_report (s : Session) (k : Nat) (d : Diagnostic) :
    (s.report k d).gate = s.gate :=
  s.report_elim k d (gate_complain s) rfl

@[simp] theorem fuel_report (s : Session) (k : Nat) (d : Diagnostic) :
    (s.report k d).fuel = s.fuel :=
  s.report_elim k d (fuel_complain s) rfl

/-- What stays true over all that a program of an interpreter does to a session. -/
structure Bears (inside : Inside) (k : Nat) (P : Session → Prop) : Prop where
  machine (m : Machine) {s : Session} : P s → P (s.modify k ({ · with machine := m }))
  complain (c : Channel) (t : Text) {s : Session} : P s → P (s.complain c t)
  write (t : Text) {s : Session} : P s → P (s.writeFrom inside k t).2

structure Apart (inside : Inside) (k : Nat) (P : Session → Prop) : Prop where
  modify (f : Interpreter → Interpreter) {s : Session} : P s → P (s.modify k f)
  complain (c : Channel) (t : Text) {s : Session} : P s → P (s.complain c t)
  write (t : Text) {s : Session} : P s → P (s.writeFrom inside k t).2
  push (i : Interpreter) {s : Session} : P s → P { s with interpreters := s.interpreters.push i }

section

variable {inside : Inside} {k : Nat} {P : Session → Prop} {s : Session}

theorem dumpTokens_keeps (write : ∀ t s, P s → P (s.writeFrom inside k t).2) (rows : List Text)
    (before : P s) : P (dumpTokens inside k rows s) := by
  induction rows generalizing s with
  | nil => exact before
  | cons row rows ih => exact ih (write row s before)

theorem trace_keeps (complain : ∀ c t s, P s → P (s.complain c t)) (debug : Bool) (p : Program)
    (m : Machine) (x : Instruction) (before : P s) : P ((host inside k debug).trace p m x s) := by
  unfold Session.host
  dsimp only
  split
  · split
    · exact complain _ _ s before
    · exact before
  · exact before

theorem Apart.bears (h : Apart inside k P) : Bears inside k P := ⟨fun _ => h.modify _, h.complain, h.write⟩

namespace Bears

theorem report (h : Bears inside k P) (j : Nat) (d : Diagnostic) (before : P s) :
    P (s.report j d) :=
  s.report_elim j d (fun c t => h.complain c t before) before

theorem reports (h : Bears inside k P) (j : Nat) (ds : List Diagnostic) (before : P s) :
    P (ds.foldl (fun s d => s.report j d) s) := by
  induction ds generalizing s with
  | nil => exact before
  | cons d ds ih => exact ih (h.report j d before)

theorem host (h : Bears inside k P) (debug : Bool) : (host inside k debug).Keeps P where
  write m t _ before := h.write t (h.machine m before)
  trace p m x _ before := trace_keeps (fun c t _ => h.complain c t) debug p m x before

end Bears

namespace Apart

theorem runProgram (h : Apart inside k P) (p : Program) (before : P s) :
    P (s.runProgram inside k p).2 := by
  unfold Session.runProgram
  split
  · exact before
  · next i _ =>
    have kept := Machine.run_keeps (p := p) (h.bears.host i.options.debug) s.fuel i.machine before
    dsimp only
    revert kept
    generalize Machine.run _ s.fuel p i.machine s = r
    obtain ⟨ending, m, s'⟩ := r
    intro kept
    cases ending with
    | finished => exact h.modify _ kept
    | failed e => exact h.bears.report _ _ (h.modify _ (h.modify _ kept))
    | unfinished => exact h.modify _ kept

theorem runInput (h : Apart inside k P) (printTokens : Bool) (file source : Text) (before : P s) :
    P (s.runInput inside k printTokens file source).2 := by
  unfold Session.runInput
  dsimp only
  have dumped : P (if printTokens = true then
      Session.dumpTokens inside k (TokenDump.rows file source) s else s) := by
    split
    · exact dumpTokens_keeps (fun t _ => h.write t) _ before
    · exact before
  split
  · exact h.bears.reports _ _ (h.modify _ dumped)
  · exact h.runProgram _ dumped

theorem interpret (h : Apart inside k P) (file source : Text) (before : P s) :
    P (s.interpret inside k file source).2 := by
  unfold Session.interpret
  split
  · exact before
  · split
    · exact h.bears.report _ _ (h.modify _ before)
    · exact h.modify _ (h.runInput _ _ _ (h.modify _ before))

theorem call (h : Apart inside k P) (c : Call) (before : P s) : P (s.call inside k c).2 := by
  cases c with
  | interpret file source => exact h.interpret file source before
  | reset =>
    simp only [Session.call, Session.reset]
    split
    · exact before
    · split
      · exact before
      · exact h.modify _ before
  | duplicate =>
    simp only [Session.call, Session.duplicate]
    split
    · exact before
    · split
      · exact before
      · exact h.push _ before
  | globals => exact before
  | listing => exact before
  | setOutput c => exact h.modify _ before
  | setErrorOutput c => exact h.modify _ before

end Apart

end

end Session

/-- How a gate answers a write of some number. -/
def Gate.answer (g : Gate) (n : Nat) : Except WriteFault Unit :=
  match g.refusal with
  | some r => if r.first ≤ n then .error r.fault else .ok ()
  | none => .ok ()

theorem Gate.refusal_of_answer {g : Gate} {n : Nat} {f : WriteFault}
    (answered : g.answer n = .error f) : ∃ first, g.refusal = some ⟨first, f⟩ := by
  unfold answer at answered
  split at answered
  · next r given =>
    split at answered
    · cases answered
      exact ⟨r.first, given⟩
    · cases answered
  · cases answered

namespace Session

/-- The session after the calls that wait for its next write were let in. -/
def interrupted (inside : Inside) (s : Session) : Session :=
  letIn inside s.gate.writes { s with gate := { s.gate with writes := s.gate.writes + 1 } }

/-- A write to the primary channel lets in the calls that wait for it, and then the line is taken or
refused. -/
theorem write_primary (inside : Inside) (t : Text) (s : Session) :
    s.write inside .primary t =
      match (s.interrupted inside).gate.answer s.gate.writes with
      | .error e => (.error e, s.interrupted inside)
      | .ok _ => (.ok (), (s.interrupted inside).print t) := by
  have opened : s.write inside .primary t =
      match (s.interrupted inside).gate.refusal with
      | some r => if r.first ≤ s.gate.writes then (.error r.fault, s.interrupted inside)
        else (.ok (), (s.interrupted inside).print t)
      | none => (.ok (), (s.interrupted inside).print t) := rfl
  rw [opened, Gate.answer]
  cases (s.interrupted inside).gate.refusal with
  | none => rfl
  | some r =>
    dsimp only
    split <;> rfl

/-- A write to the other channel concerns no call, and one to the primary channel is answered once the
calls that waited for it were let in. -/
theorem writeFrom_cases (inside : Inside) (k : Nat) (t : Text) (s : Session) :
    let r := s.writeFrom inside k t
    (s.channelOf k = .secondary ∧ r.1 = .ok () ∧ r.2.interpreters = s.interpreters ∧
        r.2.fuel = s.fuel ∧ r.2.gate = s.gate) ∨
      (s.channelOf k = .primary ∧ r.1 = (s.interrupted inside).gate.answer s.gate.writes ∧
        r.2.interpreters = (s.interrupted inside).interpreters ∧
        r.2.fuel = (s.interrupted inside).fuel ∧ r.2.gate = (s.interrupted inside).gate) := by
  unfold writeFrom
  cases s.channelOf k with
  | secondary => exact .inl ⟨rfl, rfl, rfl, rfl, rfl⟩
  | primary =>
    rw [write_primary]
    cases (s.interrupted inside).gate.answer s.gate.writes with
    | error e => exact .inr ⟨rfl, rfl, rfl, rfl, rfl⟩
    | ok _ => exact .inr ⟨rfl, rfl, rfl, rfl, rfl⟩

def Has (target : Nat) (P : Interpreter → Prop) (s : Session) : Prop :=
  ∃ i, s.interpreters[target]? = some i ∧ P i

theorem Has.same {target : Nat} {P : Interpreter → Prop} {s s' : Session} (h : s.Has target P)
    (same : s'.interpreters[target]? = s.interpreters[target]?) : s'.Has target P := by
  obtain ⟨i, found, kind⟩ := h
  exact ⟨i, same.trans found, kind⟩

theorem Has.modify {target : Nat} {P Q : Interpreter → Prop} {s : Session} (h : s.Has target P)
    {f : Interpreter → Interpreter} (kind : ∀ i, P i → Q (f i)) : (s.modify target f).Has target Q := by
  obtain ⟨i, found, held⟩ := h
  refine ⟨f i, ?_, kind i held⟩
  rw [interpreters_modify, if_pos rfl, found]
  rfl

end Session

def Call.onBusy : Call → Interpreter → Interpreter
  | .interpret _ _, i => { i with lastError := some .busy }
  | .setOutput c, i => { i with out := c }
  | .setErrorOutput c, i => i.redirectErrors c
  | _, i => i

/-- A busy interpreter replies to a call that would run, reset or duplicate it that it is busy. -/
def Call.Rejected : Call → Reply → Prop
  | .interpret _ _, r => r = .interpreted .runtimeError (some .busy)
  | .reset, r => r = .refused busyMessage
  | .duplicate, r => r = .refused (utf8 "cannot duplicate: " ++ busyMessage)
  | _, _ => True

namespace Session

theorem call_of_busy {s : Session} {k : Nat} {i : Interpreter} (found : s.interpreters[k]? = some i)
    (busy : i.busy = true) (inside : Inside) (c : Call) :
    (∀ j : Nat, (s.call inside k c).2.interpreters[j]? = (s.modify k c.onBusy).interpreters[j]?) ∧
      (s.call inside k c).2.fuel = s.fuel ∧ (s.call inside k c).2.gate = s.gate ∧
      c.Rejected (s.call inside k c).1 := by
  have still (j : Nat) : s.interpreters[j]? = (s.modify k id).interpreters[j]? := by
    rw [interpreters_modify]
    simp
  cases c with
  | interpret file source =>
    have refused : s.interpret inside k file source =
        (.runtimeError, (s.failWith k .busy).report k { message := busyMessage }) := by
      simp only [interpret, found, busy, if_true]
    simp only [call, refused]
    refine ⟨fun j => ?_, ?_, ?_, ?_⟩
    · rw [interpreters_report]
      rfl
    · rw [fuel_report]
      rfl
    · rw [gate_report]
      rfl
    · rw [Call.Rejected, lastError, interpreters_report, interpreters_failWith found]
      rfl
  | reset =>
    have refused : s.call inside k .reset = (.refused busyMessage, s) := by
      simp only [call, reset, found, busy, if_true]
    rw [refused]
    exact ⟨still, rfl, rfl, rfl⟩
  | duplicate =>
    have refused : s.call inside k .duplicate =
        (.refused (utf8 "cannot duplicate: " ++ busyMessage), s) := by
      simp only [call, duplicate, found, busy, if_true]
    rw [refused]
    exact ⟨still, rfl, rfl, rfl⟩
  | globals => exact ⟨still, rfl, rfl, trivial⟩
  | listing => exact ⟨still, rfl, rfl, trivial⟩
  | setOutput c => exact ⟨fun _ => rfl, rfl, rfl, trivial⟩
  | setErrorOutput c => exact ⟨fun _ => rfl, rfl, rfl, trivial⟩

end Session

/-- All calls of a request, the ones inside included, are of a kind. -/
inductive Request.All (A : Nat → Call → Prop) : Request → Prop where
  | mk {k : Nat} {c : Call} {inside : List (List Request)} {refusal : Option Refusal} : A k c →
      (∀ rs ∈ inside, ∀ r ∈ rs, All A r) → All A (.mk k c inside refusal)

theorem Request.all_of_forall {A : Nat → Call → Prop} (h : ∀ k c, A k c) : (r : Request) → r.All A
  | .mk k c _ _ => .mk (h k c) fun rs row r mem => by
    have := List.sizeOf_lt_of_mem row
    have := List.sizeOf_lt_of_mem mem
    exact all_of_forall h r
decreasing_by
  simp only [Request.mk.sizeOf_spec]
  omega

/-- An answer to a request in which an interpreter has rejected every call, made at once or inside,
that a busy one rejects. The calls inside that were made are answered in their order. -/
inductive TurnedAway (target : Nat) : Request → Answer → Prop where
  | alone {k : Nat} {c : Call} {refusal : Option Refusal} {reply : Reply} :
      (k = target → c.Rejected reply) → TurnedAway target (.mk k c [] refusal) (.mk reply none)
  | around {k : Nat} {c : Call} {inside : List (List Request)} {refusal : Option Refusal}
      {reply : Reply} {made : List Request} {answers : List Answer} :
      (k = target → c.Rejected reply) → made.Sublist inside.flatten →
      List.Forall₂ (TurnedAway target) made answers →
      TurnedAway target (.mk k c inside refusal) (.mk reply (some answers))

/-- A kind of busy interpreter, and calls that leave it of that kind. -/
structure Steadfast (A : Call → Prop) (P : Interpreter → Prop) : Prop where
  busy {i : Interpreter} : P i → i.busy = true
  call {c : Call} {i : Interpreter} : A c → P i → P (c.onBusy i)

namespace Session

/-- What is left of a session by calls whose writes are not watched: they may have written. -/
structure Passes (s s' : Session) : Prop where
  fuel : s'.fuel = s.fuel
  inside : s'.gate.inside = s.gate.inside
  refusal : s'.gate.refusal = s.gate.refusal
  writes : s.gate.writes ≤ s'.gate.writes

theorem Passes.refl (s : Session) : s.Passes s := ⟨rfl, rfl, rfl, Nat.le_refl _⟩

theorem Passes.trans {s s' s'' : Session} (h : s.Passes s') (h' : s'.Passes s'') : s.Passes s'' :=
  ⟨h'.fuel.trans h.fuel, h'.inside.trans h.inside, h'.refusal.trans h.refusal,
    Nat.le_trans h.writes h'.writes⟩

/-- What the calls let in by each write do to a session where an interpreter is of a kind; the rows
are the requests that wait. -/
def Admits (target : Nat) (P : Interpreter → Prop) (rows : List (List Request)) (inside : Inside) :
    Prop :=
  ∀ n s, s.Has target P → (inside n s).2.Has target P ∧ s.Passes (inside n s).2 ∧
    List.Forall₂ (TurnedAway target) (rows[n]?.getD []) (inside n s).1

theorem admits_undisturbed (target : Nat) (P : Interpreter → Prop) : Admits target P [] undisturbed :=
  fun _ s has => ⟨has, .refl s, .nil⟩

/-- A session during a call, with the session in which the call began: an interpreter is of a kind, and
beside earlier answers the gate has noted down those of requests that waited for the writes so far. -/
structure Held (target : Nat) (P : Interpreter → Prop) (rows : List (List Request))
    (start s : Session) : Prop where
  has : s.Has target P
  fuel : s.fuel = start.fuel
  refusal : s.gate.refusal = start.gate.refusal
  writes : start.gate.writes ≤ s.gate.writes
  booked : ∃ (made : List Request) (answers : List Answer),
    s.gate.inside = start.gate.inside ++ answers ∧ made.Sublist (rows.take s.gate.writes).flatten ∧
      List.Forall₂ (TurnedAway target) made answers

theorem flatten_sublist_of_isPrefix {α : Type} {rows rows' : List (List α)} (h : rows <+: rows') :
    rows.flatten.Sublist rows'.flatten := by
  obtain ⟨more, rfl⟩ := h
  rw [List.flatten_append]
  exact List.sublist_append_left _ _

section

variable {target k : Nat} {P : Interpreter → Prop} {rows : List (List Request)} {inside : Inside}
  {start s s' : Session} {A : Call → Prop}

namespace Held

theorem begin (has : s.Has target P) (fuel : s.fuel = start.fuel) (gate : s.gate = start.gate) :
    Held target P rows start s := by
  refine ⟨has, fuel, by rw [gate], Nat.le_of_eq (by rw [gate]), [], [], ?_, List.nil_sublist _, .nil⟩
  rw [gate, List.append_nil]

theorem passes (h : Held target P [] start s) : start.Passes s := by
  obtain ⟨made, answers, noted, short, turned⟩ := h.booked
  rw [List.take_nil, List.flatten_nil, List.sublist_nil] at short
  subst short
  cases turned
  exact ⟨h.fuel, noted.trans (List.append_nil _), h.refusal, h.writes⟩

theorem same (h : Held target P rows start s) (interpreter : s'.Has target P)
    (fuel : s'.fuel = s.fuel) (gate : s'.gate = s.gate) : Held target P rows start s' :=
  ⟨interpreter, fuel.trans h.fuel, by rw [gate]; exact h.refusal, by rw [gate]; exact h.writes,
    by rw [gate]; exact h.booked⟩

theorem interrupted (h : Held target P rows start s) (admits : Admits target P rows inside) :
    Held target P rows start (s.interrupted inside) := by
  obtain ⟨made, answers, noted, short, turned⟩ := h.booked
  obtain ⟨has', passes, answered⟩ := admits s.gate.writes
    { s with gate := { s.gate with writes := s.gate.writes + 1 } } h.has
  refine ⟨has', passes.fuel.trans h.fuel, passes.refusal.trans h.refusal,
    Nat.le_trans (Nat.le_succ_of_le h.writes) passes.writes, made ++ rows[s.gate.writes]?.getD [],
    answers ++ _, ?_, ?_, List.rel_append turned answered⟩
  · rw [← List.append_assoc, ← noted]
    exact congrArg (· ++ _) passes.inside
  · have row : (rows.take (s.gate.writes + 1)).flatten =
        (rows.take s.gate.writes).flatten ++ rows[s.gate.writes]?.getD [] := by
      rw [List.take_add_one, List.flatten_append]
      cases rows[s.gate.writes]? <;> simp
    have more := (short.append (List.Sublist.refl (rows[s.gate.writes]?.getD [])))
    rw [← row] at more
    exact more.trans (flatten_sublist_of_isPrefix (List.take_prefix_take_left passes.writes))

theorem writeFrom (h : Held target P rows start s) (admits : Admits target P rows inside) (t : Text) :
    Held target P rows start (s.writeFrom inside k t).2 := by
  rcases writeFrom_cases inside k t s with ⟨_, _, interpreters, fuel, gate⟩ |
    ⟨_, _, interpreters, fuel, gate⟩
  · exact h.same (h.has.same (by rw [interpreters])) fuel gate
  · have after := h.interrupted admits
    exact after.same (after.has.same (by rw [interpreters])) fuel gate

theorem answer (h : Held target P rows start s) (admits : Admits target P rows inside) (n : Nat) :
    (s.interrupted inside).gate.answer n = start.gate.answer n := by
  unfold Gate.answer
  rw [(h.interrupted admits).refusal]

theorem complain (h : Held target P rows start s) (c : Channel) (t : Text) :
    Held target P rows start (s.complain c t) :=
  h.same (h.has.same (by rw [interpreters_complain])) (fuel_complain s c t) (gate_complain s c t)

theorem apart (admits : Admits target P rows inside) (other : k ≠ target) :
    Apart inside k (Held target P rows start) where
  modify f _ h := h.same (h.has.same (by rw [interpreters_modify, if_neg other])) rfl rfl
  complain c t _ h := h.complain c t
  write t _ h := h.writeFrom admits t
  push i s h := by
    refine h.same (h.has.same ?_) rfl rfl
    obtain ⟨j, found, _⟩ := h.has
    rw [Array.getElem?_push, if_neg]
    exact Nat.ne_of_lt (Array.getElem?_eq_some_iff.1 found).1

theorem bears (admits : Admits target P rows inside)
    (machine : ∀ (m : Machine) (i : Interpreter), P i → P { i with machine := m }) :
    Bears inside target (Held target P rows start) where
  machine m _ h := h.same (h.has.modify (machine m)) rfl rfl
  complain c t _ h := h.complain c t
  write t _ h := h.writeFrom admits t

end Held

theorem call_turnedAway (steadfast : Steadfast A P) (admits : Admits target P rows inside)
    {c : Call} (allowed : k = target → A c) (has : s.Has target P) :
    Held target P rows s (s.call inside k c).2 ∧ (k = target → c.Rejected (s.call inside k c).1) := by
  by_cases same : k = target
  · subst same
    obtain ⟨i, found, kind⟩ := has
    obtain ⟨interpreters, fuel, gate, rejected⟩ := call_of_busy found (steadfast.busy kind) inside c
    refine ⟨.begin ⟨c.onBusy i, ?_, steadfast.call (allowed rfl) kind⟩ fuel gate, fun _ => rejected⟩
    rw [interpreters, interpreters_modify, if_pos rfl, found]
    rfl
  · exact ⟨(Held.apart admits same).call c (.begin has rfl rfl), fun equal => absurd equal same⟩

end

section

variable {target : Nat} {P : Interpreter → Prop} {A : Call → Prop}

mutual

/-- However deep inside other calls, a busy interpreter stays of its kind and turns calls away. -/
theorem request_turnedAway (steadfast : Steadfast A P) : (r : Request) →
    (allowed : r.All fun k c => k = target → A c) → (s : Session) → s.Has target P →
    (request r s).2.Has target P ∧ s.Passes (request r s).2 ∧ TurnedAway target r (request r s).1
  | .mk k c inside refusal, allowed, s, has => by
    obtain ⟨here, within⟩ := allowed
    unfold request
    split
    · next plain =>
      obtain rfl : inside = [] := List.isEmpty_iff.1 (Bool.and_eq_true_iff.1 plain).1
      obtain ⟨held, rejected⟩ := call_turnedAway steadfast (admits_undisturbed target P) here has
      exact ⟨held.has, held.passes, .alone rejected⟩
    · have admits : Admits target P inside (requestsAt inside) := fun n s has =>
        requestsAt_turnedAway steadfast inside within n s has
      obtain ⟨held, rejected⟩ :=
        call_turnedAway (s := { s with gate := { refusal } }) steadfast admits here has
      refine ⟨held.has, ⟨held.fuel, rfl, rfl, Nat.le_refl _⟩, ?_⟩
      obtain ⟨made, answers, noted, short, turned⟩ := held.booked
      dsimp only
      split
      · next none =>
        obtain rfl : inside = [] := List.isEmpty_iff.1 none
        exact .alone rejected
      · rw [noted]
        exact .around rejected (short.trans (flatten_sublist_of_isPrefix (List.take_prefix _ _))) turned

theorem requests_turnedAway (steadfast : Steadfast A P) : (rs : List Request) →
    (allowed : ∀ r ∈ rs, r.All fun k c => k = target → A c) → (s : Session) → s.Has target P →
    (requests rs s).2.Has target P ∧ s.Passes (requests rs s).2 ∧
      List.Forall₂ (TurnedAway target) rs (requests rs s).1
  | [], _, s, has => by
    unfold requests
    exact ⟨has, .refl s, .nil⟩
  | r :: rs, allowed, s, has => by
    obtain ⟨first, rest⟩ := List.forall_mem_cons.1 allowed
    obtain ⟨has, passes, turned⟩ := request_turnedAway steadfast r first s has
    obtain ⟨has, passes', all⟩ := requests_turnedAway steadfast rs rest _ has
    unfold requests
    exact ⟨has, passes.trans passes', .cons turned all⟩

theorem requestsAt_turnedAway (steadfast : Steadfast A P) : (inside : List (List Request)) →
    (allowed : ∀ rs ∈ inside, ∀ r ∈ rs, r.All fun k c => k = target → A c) →
    Admits target P inside (requestsAt inside)
  | [], _, n, s, has => by
    unfold requestsAt
    exact ⟨has, .refl s, .nil⟩
  | rs :: later, allowed, 0, s, has => by
    unfold requestsAt
    exact requests_turnedAway steadfast rs (allowed rs List.mem_cons_self) s has
  | rs :: later, allowed, n + 1, s, has => by
    have rest := requestsAt_turnedAway steadfast later
      (fun r mem => allowed r (List.mem_cons_of_mem _ mem)) n s has
    unfold requestsAt
    exact rest

end

end

end Session

end StackScript
