import StackScript.Proofs.Reentrancy
import StackScript.Proofs.Session.Twins

/-! Inputs that do not compile leave no trace. Beside the error and the source that can be quoted from
now on, an interpreter is as it was before such an input; so a session goes on as if the input had
not been offered. Neither do runs leave one: what a run comes to hangs on the globals and the bounds
of its machine, and on nothing else that earlier runs have left there. -/

namespace StackScript

def Interpreter.faulted (file source : Text) (ds : List Diagnostic) (i : Interpreter) : Interpreter :=
  { i with lastError := some (.faults ds), sources := i.sources.insert file source }

def Interpreter.dump (file source : Text) (i : Interpreter) : List Text :=
  if i.options.printTokens then TokenDump.rows file source else []

/-- The file of an input that does not compile, if nothing is called inside. -/
def Request.faulty? : Request → Option Text
  | .mk _ (.interpret file source) [] _ =>
    match compile file source with
    | .error _ => some file
    | .ok _ => none
  | _ => none

theorem Request.not_supplies {k : Nat} {c : Call} {e : RuntimeError} :
    ¬ (Request.mk k c [] none).Supplies e := by
  rintro (_ | ⟨row, _, _⟩)
  cases row

/-- All that is seen of a request: the answer, and what is shown on each channel. -/
structure Sight where
  answer : Answer
  out : Array UInt8
  err : Array UInt8
  outSecondary : Array UInt8
  errSecondary : Array UInt8

/-- The diagnostics of the failures that a request supplies about some files. -/
def Request.blames (files : Text → Prop) (r : Request) (d : Diagnostic) : Prop :=
  files d.place ∧ ∃ e, r.Supplies e ∧ e.diagnostic = d

/-- Sights of one request that are the same, but for the excerpts under failures that the request itself
supplies about some files. -/
structure Sight.Same (files : Text → Prop) (x x' : Request × Sight) : Prop where
  request : x.1 = x'.1
  answer : x.2.answer = x'.2.answer
  out : x.2.out = x'.2.out
  outSecondary : x.2.outSecondary = x'.2.outSecondary
  err : Redrawn (x.1.blames files) x.2.err x'.2.err
  errSecondary : Redrawn (x.1.blames files) x.2.errSecondary x'.2.errSecondary

theorem Sight.Same.eq {files : Text → Prop} {x x' : Request × Sight} (h : Sight.Same files x x')
    (none : ∀ e, x.1.Supplies e → ¬ files e.diagnostic.place) : x = x' := by
  have clear (d : Diagnostic) : ¬ x.1.blames files d := by
    rintro ⟨doubtful, e, supplies, rfl⟩
    exact none e supplies doubtful
  obtain ⟨r, answer, out, err, outSecondary, errSecondary⟩ := x
  obtain ⟨r', answer', out', err', outSecondary', errSecondary'⟩ := x'
  obtain ⟨rfl, rfl, rfl, rfl, first, second⟩ := h
  obtain rfl : err = err' := first.eq clear
  obtain rfl : errSecondary = errSecondary' := second.eq clear
  rfl

namespace Session

/-- What is seen of requests made one after another. -/
def course : List Request → Session → List (Request × Sight)
  | [], _ => []
  | r :: rs, s =>
    let (answer, s) := request r s.drain
    (r, ⟨answer, s.out, s.err, s.outSecondary, s.errSecondary⟩) :: course rs s

section

variable {s : Session} {k : Nat} {i : Interpreter} {file source : Text} {ds : List Diagnostic}

theorem modify_congr (found : s.interpreters[k]? = some i) {f g : Interpreter → Interpreter}
    (same : f i = g i) : s.modify k f = s.modify k g := by
  have interpreters : s.interpreters.modify k f = s.interpreters.modify k g := by
    refine Array.ext_getElem? fun j => ?_
    rw [Array.getElem?_modify, Array.getElem?_modify]
    split
    · next this =>
      subst this
      rw [found, Option.map_some, Option.map_some, same]
    · rfl
  simp only [modify, interpreters]

theorem modify_modify (s : Session) (k : Nat) (f g : Interpreter → Interpreter) :
    (s.modify k f).modify k g = s.modify k (g ∘ f) := by
  have interpreters : (s.interpreters.modify k f).modify k g = s.interpreters.modify k (g ∘ f) := by
    refine Array.ext_getElem? fun j => ?_
    simp only [Array.getElem?_modify]
    split
    · rw [Option.map_map]
    · rfl
  simp only [modify, interpreters]

theorem bare_opened (s : Session) (k : Nat) (file source : Text) :
    (s.opened undisturbed k file source).bare = (s.modify k (·.accept file source)).bare := by
  unfold opened
  dsimp only
  split
  · exact bare_dumpTokens k _ _
  · rfl

/-- An idle interpreter takes only the error and the source from an input with faults. -/
theorem bare_interpret_faulty (found : s.interpreters[k]? = some i) (idle : i.busy = false)
    (faulty : compile file source = .error ds) :
    (s.interpret undisturbed k file source).2.bare = (s.modify k (·.faulted file source ds)).bare := by
  have opened := bare_modify (bare_opened s k file source) k ({ · with lastError := some (.faults ds) })
  have shown := bare_modify ((bare_reports k ds _).trans opened) k ({ · with busy := false })
  rw [interpret_of_faults found idle faulty]
  refine shown.trans ?_
  rw [modify_modify, modify_modify]
  refine congrArg bare (modify_congr found ?_)
  simp only [Function.comp, Interpreter.accept, Interpreter.faulted, ← idle]

theorem output_interpret_faulty (found : s.interpreters[k]? = some i) (idle : i.busy = false)
    (faulty : compile file source = .error ds) :
    ∃ taken, taken <+: i.dump file source ∧ (s.gate.refusal = none → taken = i.dump file source) ∧
      ∀ c, (s.interpret undisturbed k file source).2.output c =
        s.output c ++ if c = i.out then taken.flatten else [] := by
  have accepted : (s.modify k (·.accept file source)).channelOf k = i.out := by
    rw [channelOf, interpreters_modify, if_pos rfl, found]
    rfl
  have opened (c : Channel) : (s.interpret undisturbed k file source).2.output c =
      (s.opened undisturbed k file source).output c := by
    rw [interpret_of_faults found idle faulty, release, output_modify, output_reports, failWith,
      output_modify]
  simp only [opened, Session.opened, found, Option.elim, Interpreter.dump]
  split
  · obtain ⟨taken, short, all, shown⟩ :=
      output_dumpTokens k (TokenDump.rows file source) (s.modify k (·.accept file source))
    refine ⟨taken, short, all, fun c => ?_⟩
    rw [shown c, accepted, output_modify]
  · exact ⟨[], List.prefix_rfl, fun _ => rfl, fun c => by simp [output_modify]⟩

/-- Whatever is called inside, the interpreter itself takes no more from an input with faults. -/
theorem interpreter_of_faulty (found : s.interpreters[k]? = some i) (idle : i.busy = false)
    (faulty : compile file source = .error ds) {inside : List (List Request)}
    (reentrant : ∀ rs ∈ inside, ∀ r ∈ rs, r.All fun j c => j = k → c.Reentrant) :
    let r := s.interpret (requestsAt inside) k file source
    r.1 = .compileError ∧ r.2.interpreters[k]? = some (i.faulted file source ds) := by
  intro r
  have steadfast := steadfast_running (i.accept file source) rfl (· = i.machine)
  have admits := requestsAt_turnedAway steadfast inside reentrant
  have held := held_opened admits found (accepted_running i file source)
  obtain ⟨_, there, m, e, rfl, rfl⟩ := held.has
  have known := interpreters_failWith there (.faults ds)
  rw [← interpreters_reports _ k ds] at known
  have same : r = _ := interpret_of_faults found idle faulty
  rw [same]
  refine ⟨rfl, (interpreters_release known).trans ?_⟩
  simp only [Interpreter.accept, Interpreter.faulted, ← idle]

end

/-- Behind an input that does not compile, an interpreter that was offered it may have another last
error and quote another source for its file. -/
def Marks (file : Text) (f : Interpreter → Interpreter) : Prop :=
  ∀ i, ∃ e sources, f i = { i with lastError := e, sources } ∧
    ∀ other ≠ file, sources[other]? = i.sources[other]?

theorem bare_interpret_marks {file source : Text} {ds : List Diagnostic}
    (faulty : compile file source = .error ds) (k : Nat) (s : Session) :
    ∃ f, Marks file f ∧ (s.interpret undisturbed k file source).2.bare = (s.modify k f).bare := by
  cases found : s.interpreters[k]? with
  | none =>
    refine ⟨id, fun i => ⟨_, _, rfl, fun _ _ => rfl⟩, ?_⟩
    have same : s.interpreters.modify k id = s.interpreters :=
      Array.ext_getElem? fun j => by simp [Array.getElem?_modify]
    simp only [interpret, found, modify, same]
  | some i =>
    cases idle : i.busy with
    | true =>
      refine ⟨({ · with lastError := some .busy }), fun i => ⟨_, _, rfl, fun _ _ => rfl⟩, ?_⟩
      rw [interpret_of_busy found idle, bare_report]
      rfl
    | false =>
      refine ⟨(·.faulted file source ds), fun i => ⟨_, _, rfl, fun other ne => ?_⟩,
        bare_interpret_faulty found idle faulty⟩
      rw [Std.TreeMap.getElem?_insert, if_neg]
      exact fun equal => ne (Std.LawfulEqCmp.eq_of_compare equal).symm

/-- A request that is deleted would have marked one interpreter, and nothing else. -/
theorem bare_request_marks {r : Request} {file : Text} (faulty : r.faulty? = some file) (s : Session) :
    ∃ k f, Marks file f ∧ (request r s).2.bare = (s.modify k f).bare := by
  unfold Request.faulty? at faulty
  split at faulty
  · next k file source refusal =>
    split at faulty
    · next ds found =>
      cases faulty
      refine ⟨k, ?_⟩
      unfold request
      split
      · exact bare_interpret_marks found k s
      · rw [requestsAt_nil]
        obtain ⟨f, marks, left⟩ := bare_interpret_marks found k { s with gate := { refusal } }
        exact ⟨f, marks, bare_gate left s.gate⟩
    · cases faulty
  · cases faulty

theorem drain_of_bare {s t : Session} (same : t.bare = s.bare) :
    t.drain = { s.drain with gate := { s.gate with writes := t.gate.writes } } := by
  have whole := congrArg (fun u : Session =>
    ({ u with gate := { u.gate with writes := t.gate.writes } } : Session)) same
  exact whole

namespace Alike

variable {files : Text → Prop} {quotes : Diagnostic → Prop} {settled : Nat → Text → Prop}
  {s s' t : Session}

theorem drain {v : Slack} (h : Alike v settled s s') (writes : v.writes) (quotes : Diagnostic → Prop) :
    Alike ⟨v.files, quotes, True⟩ settled s.drain s'.drain :=
  { h with
    writes := .inl trivial
    unrefused := fun _ => h.unrefused writes
    out := rfl
    outSecondary := rfl
    err := .same _
    errSecondary := .same _
    failures := fun r given => by cases (h.unrefused writes).symm.trans given }

theorem marked (h : Alike ⟨files, quotes, True⟩ (fun _ _ => False) s s') {file : Text}
    (known : files file) {f : Interpreter → Interpreter} (marks : Marks file f) (k : Nat)
    (left : t.bare = (s.modify k f).bare) :
    Alike ⟨files, quotes, True⟩ (fun _ _ => False) t.drain s'.drain := by
  have twins (i i' : Interpreter) (twins : i.Twins files (fun _ => False) i') :
      (f i).Twins files (fun _ => False) i' := by
    obtain ⟨e, sources, same, others⟩ := marks i
    rw [same]
    refine { twins with sources := fun other agreed => ?_, lastError := fun ⟨_, never⟩ => never.elim }
    refine (others other ?_).trans (twins.sources other agreed)
    rintro rfl
    exact agreed.elim (· known) id
  have one : Alike ⟨files, quotes, True⟩ (fun _ _ => False) (s.modify k f) s' :=
    { h with
      interpreters := fun j => by
        rw [interpreters_modify]
        split
        · next this =>
          subst this
          have rel := rel_map (g := id) twins (h.interpreters k)
          rwa [Option.map_id] at rel
        · exact h.interpreters j }
  rw [drain_of_bare left]
  exact { one.drain trivial quotes with writes := .inl trivial }

end Alike

/-- Requests that go through both sessions are seen alike, and those with faulty inputs can be left
out of one of them. -/
theorem course_alike {files : Text → Prop} (rs : List Request)
    (known : ∀ r ∈ rs, ∀ file ∈ r.faulty?, files file) {s s' : Session}
    (h : Alike ⟨files, fun _ => False, True⟩ (fun _ _ => False) s.drain s'.drain) :
    List.Forall₂ (Sight.Same files) ((course rs s).filter (·.1.faulty?.isNone))
      (course (rs.filter (·.faulty?.isNone)) s') := by
  induction rs generalizing s s' with
  | nil => exact .nil
  | cons r rs ih =>
    obtain ⟨first, rest⟩ := List.forall_mem_cons.1 known
    cases faulty : r.faulty? with
    | some file =>
      obtain ⟨k, f, marks, left⟩ := bare_request_marks faulty s.drain
      have after := h.marked (first file faulty) marks k left
      simp only [course, List.filter_cons, faulty, Option.isNone_some, Bool.false_eq_true, if_false]
      exact ih rest after
    | none =>
      -- Each request starts with empty channels, so only its own failures can be quoted differently.
      have begun := h.drain trivial (r.blames files)
      obtain ⟨answer, after⟩ := request_alike ⟨files, r.blames files, True⟩ r
        (fun e supplies doubtful => ⟨doubtful, e, supplies, rfl⟩) _ _ _ begun
      simp only [course, List.filter_cons, faulty, Option.isNone_none, if_true]
      exact .cons ⟨rfl, answer, after.out, after.outSecondary, after.err, after.errSecondary⟩
        (ih rest (after.drain trivial _))

theorem mem_of_mem_course {x : Request × Sight} {rs : List Request} {s : Session}
    (mem : x ∈ course rs s) : x.1 ∈ rs := by
  induction rs generalizing s with
  | nil => cases mem
  | cons r rs ih =>
    rcases List.mem_cons.1 mem with rfl | later
    · exact List.mem_cons_self
    · exact List.mem_cons_of_mem _ (ih later)

theorem eq_of_forall₂ {α : Type} {R : α → α → Prop} {xs ys : List α} (h : List.Forall₂ R xs ys)
    (same : ∀ x ∈ xs, ∀ y, R x y → x = y) : xs = ys := by
  induction h with
  | nil => rfl
  | cons related _ ih =>
    obtain ⟨first, rest⟩ := List.forall_mem_cons.1 same
    rw [first _ related, ih rest]

def faultyFiles (rs : List Request) (file : Text) : Prop := ∃ r ∈ rs, r.faulty? = some file

/-- What is seen of the requests of a session whose inputs compile is seen of them without the others. -/
structure Unaffected (rs : List Request) (s : Session) : Prop where
  same : List.Forall₂ (Sight.Same (faultyFiles rs)) ((course rs s).filter (·.1.faulty?.isNone))
    (course (rs.filter (·.faulty?.isNone)) s)
  eq : (∀ r ∈ rs, ∀ e, r.Supplies e → ¬ faultyFiles rs e.diagnostic.place) →
    (course rs s).filter (·.1.faulty?.isNone) = course (rs.filter (·.faulty?.isNone)) s

theorem unaffected_of_unrefused {s : Session} (unrefused : s.gate.refusal = none) (rs : List Request) :
    s.Unaffected rs := by
  have same : List.Forall₂ (Sight.Same (faultyFiles rs)) ((course rs s).filter (·.1.faulty?.isNone))
      (course (rs.filter (·.faulty?.isNone)) s) := by
    refine course_alike rs (fun r mem file faulty => ⟨r, mem, faulty⟩) ?_
    exact .refl (s := s.drain) _ _ _ unrefused
  refine ⟨same, fun none => eq_of_forall₂ same fun x mem x' same => ?_⟩
  exact same.eq (none x.1 (mem_of_mem_course (List.mem_filter.1 mem).1))

/-- An idle interpreter is not moved by an input with faults. It reports them, and shows the tokens of
the input if this is wanted and as far as they are taken; of the interpreter itself, its machine with
the globals, the last program and the bounds, its options and its channels are what they were. -/
structure Unmoved (k : Nat) (i : Interpreter) (file source : Text) (ds : List Diagnostic)
    (s : Session) : Prop where
  alone : (s.interpret undisturbed k file source).2.bare = (s.modify k (·.faulted file source ds)).bare
  output : ∃ taken, taken <+: i.dump file source ∧
    (s.gate.refusal = none → taken = i.dump file source) ∧
    ∀ c, (s.interpret undisturbed k file source).2.output c =
      s.output c ++ if c = i.out then taken.flatten else []
  within : ∀ inside : List (List Request),
    (∀ rs ∈ inside, ∀ r ∈ rs, r.All fun j c => j = k → c.Reentrant) →
    let r := s.interpret (requestsAt inside) k file source
    r.1 = .compileError ∧ r.2.interpreters[k]? = some (i.faulted file source ds)

/-- Inputs that do not compile leave no trace, and runs leave none but the globals. Such an input does not
move its interpreter. Left out of a session it changes nothing that is seen of the other requests,
except for the excerpt under a failure about its file that another request supplies with a refused
write. And what machines have been through does not show in a run, if their globals mean the same and
their bounds are the same. -/
theorem faulty_inputs_leave_no_trace :
    (∀ (s : Session) (k : Nat) (i : Interpreter) (file source : Text) (ds : List Diagnostic),
      s.interpreters[k]? = some i → i.busy = false → compile file source = .error ds →
      s.Unmoved k i file source ds) ∧
    (∀ (s : Session) (rs : List Request), s.gate.refusal = none → s.Unaffected rs) ∧
    ∀ (m m' : Machine), m.maxStack = m'.maxStack → m.limit = m'.limit → ∀ (fuel : Nat) (p : Program),
      (m.globals = m'.globals → ∀ (σ : Type) (host : Host σ) (s : σ),
        m.run host fuel p s = m'.run host fuel p s) ∧
      (m.globals.Equiv m'.globals → ∀ (σ : Type) (write : Text → σ → Except WriteFault Unit × σ)
        (look : Machine.Glance → σ → σ) (s : σ), EndsRelated Machine.SameNames Eq
          (m.run (.listening write look) fuel p s) (m'.run (.listening write look) fuel p s)) := by
  refine ⟨fun s k i file source ds found idle faulty => ?_,
    fun s rs unrefused => unaffected_of_unrefused unrefused rs,
    fun m m' cap limit fuel p => ⟨fun globals σ host s => ?_, fun globals σ write look s => ?_⟩⟩
  · exact ⟨bare_interpret_faulty found idle faulty, output_interpret_faulty found idle faulty,
      fun inside reentrant => interpreter_of_faulty found idle faulty reentrant⟩
  · have loaded : m.load p = m'.load p := by
      simp only [Machine.load, Machine.resetState, cap, limit, globals]
    simp only [Machine.run, loaded]
  · exact Machine.run_listening globals cap limit fuel p s

theorem faulty_inputs_leave_no_trace_between :
    let s := new { printTokens := true }
    let rs := [Request.mk 0 (.interpret (utf8 "t") (utf8 "let a = 1;")) [] none,
      .mk 0 (.interpret (utf8 "u") (utf8 "@")) [] none, .mk 0 .globals [] none]
    let m : Machine := { globals := ((∅ : Globals).insert [0x61] .none).insert [0x62] .none }
    let m' : Machine := { globals := ((∅ : Globals).insert [0x62] .none).insert [0x61] .none }
    (∃ ds, compile (utf8 "u") (utf8 "@") = .error ds ∧
      s.Unmoved 0 (.new { printTokens := true }) (utf8 "u") (utf8 "@") ds) ∧
    rs.map Request.faulty? = [none, some (utf8 "u"), none] ∧
    (course rs s).filter (·.1.faulty?.isNone) = course (rs.filter (·.faulty?.isNone)) s ∧
    (∀ (σ : Type) (host : Host σ) (fuel : Nat) (p : Program) (t : σ), ({} : Machine).run host fuel p t =
      ({ ip := 3, stack := #[.none], count := 7, program := some p } : Machine).run host fuel p t) ∧
    ∀ (σ : Type) (write : Text → σ → Except WriteFault Unit × σ) (look : Machine.Glance → σ → σ)
      (fuel : Nat) (p : Program) (t : σ), EndsRelated Machine.SameNames Eq
        (m.run (.listening write look) fuel p t) (m'.run (.listening write look) fuel p t) := by
  intro s rs m m'
  obtain ⟨inputs, sessions, runs⟩ := faulty_inputs_leave_no_trace
  have faulty : rs.map Request.faulty? = [none, some (utf8 "u"), none] := by decide +kernel
  refine ⟨?_, faulty, (sessions s rs rfl).eq ?_,
    fun σ host fuel p t => (runs _ _ rfl rfl fuel p).1 rfl σ host t,
    fun σ write look fuel p t => ?_⟩
  · cases compiled : compile (utf8 "u") (utf8 "@") with
    | error ds => exact ⟨ds, rfl, inputs s 0 _ _ _ ds rfl rfl compiled⟩
    | ok p =>
      have second := congrArg (·[1]?) faulty
      simp [rs, Request.faulty?, compiled] at second
  · intro r mem e supplies
    simp only [rs, List.mem_cons, List.not_mem_nil, or_false] at mem
    rcases mem with rfl | rfl | rfl
    all_goals exact absurd supplies Request.not_supplies
  · refine (runs m m' rfl rfl fuel p).2 ?_ σ write look t
    exact Std.TreeMap.equiv_iff_toList_eq.2 (by decide +kernel)

/-- A failure that comes with a refused write is quoted from what an input with faults was. -/
theorem failure_quotes_faulty_input : ¬ ∀ (s : Session) (rs : List Request), s.gate.refusal = none →
    ((course rs s).filter (·.1.faulty?.isNone)).map (·.2.err) =
      (course (rs.filter (·.faulty?.isNone)) s).map (·.2.err) := by
  intro law
  let failure : RuntimeError :=
    { fault := .write (utf8 "inner failure"), file := utf8 "inner", line := 3 }
  have same := law (new {}) [.mk 0 (.interpret (utf8 "inner") (utf8 "1;\n2;\n@")) [] none,
    .mk 0 (.interpret (utf8 "t") (utf8 "print 1;")) [] (some ⟨0, .failure failure⟩)] rfl
  exact absurd same (by decide +kernel)

end Session

end StackScript
