import StackScript.Proofs.Excerpts
import StackScript.Proofs.Machine.Bisimulation
import StackScript.Proofs.Session.Channels

/-! Sessions side by side. Two sessions of which one has had inputs that the other has not differ in
the sources that their interpreters can quote and in the last errors. Each request that both are given
is answered alike and leaves them no further apart: what it is answered with, and what is shown, hangs
on the sources of the inputs it runs itself. Only a failure that a refused write comes with can be
about a source that one of the sessions lacks. -/

namespace StackScript

def Diagnostic.place (d : Diagnostic) : Text := d.span.elim d.file (·.file)

theorem Diagnostic.Stands.place {file source : Text} {d : Diagnostic} (h : d.Stands file source) :
    d.place = file := by
  unfold Diagnostic.place
  cases spanned : d.span with
  | none => exact h.named
  | some span => exact (h.span span spanned).1.file

theorem Excerpt.render_congr {d : Diagnostic} {lookup lookup' : Text → Option Text}
    (same : d.span.elim d.line (·.line) ≤ 0 ∨ lookup d.place = lookup' d.place) (paints : Bool) :
    render paints lookup d = render paints lookup' d := by
  unfold render
  dsimp only
  split
  · rfl
  · next positive =>
    have same : lookup (d.span.elim d.file (·.file)) = lookup' (d.span.elim d.file (·.file)) :=
      same.resolve_left positive
    rw [same]

/-- Buffers of the same texts, where some diagnostics are quoted from different sources. -/
inductive Redrawn (quotes : Diagnostic → Prop) : Array UInt8 → Array UInt8 → Prop where
  | same (b : Array UInt8) : Redrawn quotes b b
  | text {b b' : Array UInt8} (t : Text) : Redrawn quotes b b' →
      Redrawn quotes (Session.append b t) (Session.append b' t)
  | quote {b b' : Array UInt8} {d : Diagnostic} (paints : Bool) (lookup lookup' : Text → Option Text) :
      quotes d → Redrawn quotes b b' →
      Redrawn quotes (Session.append b (Excerpt.render paints lookup d))
        (Session.append b' (Excerpt.render paints lookup' d))

theorem Redrawn.eq {quotes : Diagnostic → Prop} {b b' : Array UInt8} (h : Redrawn quotes b b')
    (none : ∀ d, ¬ quotes d) : b = b' := by
  induction h with
  | same => rfl
  | text t _ ih => rw [ih]
  | quote _ _ _ quoted => exact absurd quoted (none _)

/-- What two sessions may differ in: the sources of some files, the excerpts under some diagnostics, and
how writes are numbered. -/
structure Slack where
  files : Text → Prop
  quotes : Diagnostic → Prop
  writes : Prop

/-- Interpreters that differ at most in the sources of some files and in their last error, except for
the files that both have accepted since. -/
structure Interpreter.Twins (files settled : Text → Prop) (i i' : Interpreter) : Prop where
  machine : i.machine = i'.machine
  options : i.options = i'.options
  out : i.out = i'.out
  err : i.err = i'.err
  paints : i.paints = i'.paints
  busy : i.busy = i'.busy
  sources : ∀ file, ¬ files file ∨ settled file → i.sources[file]? = i'.sources[file]?
  lastError : (∃ file, settled file) → i.lastError = i'.lastError

namespace Interpreter.Twins

variable {files settled : Text → Prop} {i i' : Interpreter}

theorem refl (files settled : Text → Prop) (i : Interpreter) : i.Twins files settled i :=
  ⟨rfl, rfl, rfl, rfl, rfl, rfl, fun _ _ => rfl, fun _ => rfl⟩

theorem mono (h : i.Twins files settled i') {settled' : Text → Prop}
    (less : ∀ f, settled' f → settled f) : i.Twins files settled' i' :=
  { h with
    sources := fun f known => h.sources f (known.imp_right (less f))
    lastError := fun ⟨f, known⟩ => h.lastError ⟨f, less f known⟩ }

theorem accept (h : i.Twins files settled i') (file source : Text) :
    (i.accept file source).Twins files (fun f => settled f ∨ f = file) (i'.accept file source) :=
  { h with
    busy := rfl
    lastError := fun _ => rfl
    sources := by
      intro f known
      simp only [Interpreter.accept, Std.TreeMap.getElem?_insert]
      split
      · rfl
      · next other =>
        refine h.sources f (known.imp_right fun known => known.resolve_right ?_)
        rintro rfl
        exact other Std.ReflCmp.compare_self }

theorem render (h : i.Twins files settled i') {d : Diagnostic}
    (quotable : d.span.elim d.line (·.line) ≤ 0 ∨ ¬ files d.place ∨ settled d.place)
    (disk : Text → Option Text) : i.render disk d = i'.render disk d := by
  unfold Interpreter.render
  rw [h.paints]
  refine Excerpt.render_congr (quotable.imp_right fun known => ?_) _
  rw [h.sources _ known]

end Interpreter.Twins

theorem rel_map {α β γ δ : Type} {R : α → β → Prop} {Q : γ → δ → Prop} {f : α → γ} {g : β → δ}
    (same : ∀ a b, R a b → Q (f a) (g b)) {x : Option α} {y : Option β} (rel : Option.Rel R x y) :
    Option.Rel Q (x.map f) (y.map g) := by
  cases rel with
  | some related => exact .some (same _ _ related)
  | none => exact .none

def settle (target : Nat) (file : Text) (settled : Nat → Text → Prop) : Nat → Text → Prop :=
  fun k f => settled k f ∨ k = target ∧ f = file

namespace Session

/-- Sessions that differ as far as they may. -/
structure Alike (v : Slack) (settled : Nat → Text → Prop) (s s' : Session) : Prop where
  interpreters : ∀ k : Nat,
    Option.Rel (Interpreter.Twins v.files (settled k)) s.interpreters[k]? s'.interpreters[k]?
  refusal : s.gate.refusal = s'.gate.refusal
  inside : s.gate.inside = s'.gate.inside
  writes : v.writes ∨ s.gate.writes = s'.gate.writes
  unrefused : v.writes → s.gate.refusal = none
  disk : s.disk = s'.disk
  fuel : s.fuel = s'.fuel
  out : s.out = s'.out
  outSecondary : s.outSecondary = s'.outSecondary
  err : Redrawn v.quotes s.err s'.err
  errSecondary : Redrawn v.quotes s.errSecondary s'.errSecondary
  failures : ∀ r ∈ s.gate.refusal, ∀ e, r.fault = .failure e → v.files e.diagnostic.place →
    v.quotes e.diagnostic

/-- Calls inside a write that are answered alike in sessions that are alike. -/
def Keeps (v : Slack) (inside : Inside) : Prop :=
  ∀ settled n n' s s', (v.writes ∨ n = n') → Alike v settled s s' →
    (inside n s).1 = (inside n' s').1 ∧ Alike v settled (inside n s).2 (inside n' s').2

theorem keeps_undisturbed (v : Slack) : Keeps v undisturbed := fun _ _ _ _ _ _ h => ⟨rfl, h⟩

namespace Alike

variable {v : Slack} {settled settled' : Nat → Text → Prop} {s s' : Session} {inside : Inside}
  {k : Nat} {file source : Text}

theorem refl (files : Text → Prop) (quotes : Diagnostic → Prop) (settled : Nat → Text → Prop)
    (unrefused : s.gate.refusal = none) : Alike ⟨files, quotes, True⟩ settled s s where
  interpreters k := by
    cases s.interpreters[k]? with
    | none => exact .none
    | some i => exact .some (.refl files (settled k) i)
  refusal := rfl
  inside := rfl
  writes := .inr rfl
  unrefused _ := unrefused
  disk := rfl
  fuel := rfl
  out := rfl
  outSecondary := rfl
  err := .same _
  errSecondary := .same _
  failures r given := by cases unrefused.symm.trans given

theorem size (h : Alike v settled s s') : s.interpreters.size = s'.interpreters.size := by
  have same (k : Nat) : s.interpreters.size ≤ k ↔ s'.interpreters.size ≤ k := by
    have rel := h.interpreters k
    rw [← Array.getElem?_eq_none_iff, ← Array.getElem?_eq_none_iff]
    generalize s.interpreters[k]? = x at rel ⊢
    generalize s'.interpreters[k]? = x' at rel ⊢
    cases rel <;> simp
  exact Nat.le_antisymm ((same _).2 (Nat.le_refl _)) ((same _).1 (Nat.le_refl _))

theorem cases (h : Alike v settled s s') (k : Nat) :
    (s.interpreters[k]? = none ∧ s'.interpreters[k]? = none) ∨ ∃ i i',
      s.interpreters[k]? = some i ∧ s'.interpreters[k]? = some i' ∧ i.Twins v.files (settled k) i' := by
  have rel := h.interpreters k
  generalize s.interpreters[k]? = x at rel ⊢
  generalize s'.interpreters[k]? = x' at rel ⊢
  cases rel with
  | none => exact .inl ⟨rfl, rfl⟩
  | some twins => exact .inr ⟨_, _, rfl, rfl, twins⟩

/-- What can be told from an interpreter without its sources and its last error is the same. -/
theorem view (h : Alike v settled s s') (k : Nat) {α : Type} (f : Option Interpreter → α)
    (same : ∀ i i', i.Twins v.files (settled k) i' → f (some i) = f (some i')) :
    f s.interpreters[k]? = f s'.interpreters[k]? := by
  rcases h.cases k with ⟨left, right⟩ | ⟨i, i', left, right, twins⟩
  · rw [left, right]
  · rw [left, right, same i i' twins]

theorem mono (h : Alike v settled s s') (less : ∀ k f, settled' k f → settled k f) :
    Alike v settled' s s' :=
  { h with
    interpreters := fun k => by
      have rel := rel_map (f := id) (g := id) (fun i i' twins =>
        Interpreter.Twins.mono twins (less k)) (h.interpreters k)
      rwa [Option.map_id] at rel }

theorem modify (h : Alike v settled s s') {f : Interpreter → Interpreter}
    (others : ∀ j, j ≠ k → settled' j = settled j)
    (same : ∀ i i', i.Twins v.files (settled k) i' → (f i).Twins v.files (settled' k) (f i')) :
    Alike v settled' (s.modify k f) (s'.modify k f) :=
  { h with
    interpreters := fun j => by
      rw [interpreters_modify, interpreters_modify]
      split
      · next this =>
        subst this
        exact rel_map same (h.interpreters k)
      · next other =>
        rw [others j (Ne.symm other)]
        exact h.interpreters j }

theorem accept (h : Alike v settled s s') (k : Nat) (file source : Text) :
    Alike v (settle k file settled) (s.modify k (·.accept file source))
      (s'.modify k (·.accept file source)) := by
  refine h.modify (fun j other => ?_) fun i i' twins => ?_
  · funext f
    simp [settle, other]
  · have known : settle k file settled k = fun f => settled k f ∨ f = file := by
      funext f
      simp [settle]
    rw [known]
    exact twins.accept file source

theorem complain (h : Alike v settled s s') (c : Channel) (t : Text) :
    Alike v settled (s.complain c t) (s'.complain c t) := by
  cases c with
  | primary => exact { h with err := h.err.text t }
  | secondary => exact { h with errSecondary := h.errSecondary.text t }

/-- Both sessions show a diagnostic the same way, up to an excerpt that may differ. -/
theorem report (h : Alike v settled s s') (k : Nat) {d : Diagnostic}
    (quotable : v.quotes d ∨ d.span.elim d.line (·.line) ≤ 0 ∨ ¬ v.files d.place ∨ settled k d.place) :
    Alike v settled (s.report k d) (s'.report k d) := by
  unfold Session.report
  rcases h.cases k with ⟨left, right⟩ | ⟨i, i', left, right, twins⟩
  · rw [left, right]
    exact h
  · rw [left, right, ← h.disk]
    dsimp only
    rw [← twins.err]
    rcases quotable with quoted | quotable
    · unfold Interpreter.render
      rw [← twins.paints]
      cases i.err with
      | primary => exact { h with err := h.err.quote _ _ _ quoted }
      | secondary => exact { h with errSecondary := h.errSecondary.quote _ _ _ quoted }
    · rw [← twins.render quotable]
      exact h.complain _ _

theorem reports (h : Alike v settled s s') (k : Nat) {ds : List Diagnostic}
    (quotable : ∀ d ∈ ds, settled k d.place) :
    Alike v settled (ds.foldl (fun s d => s.report k d) s) (ds.foldl (fun s d => s.report k d) s') := by
  induction ds generalizing s s' with
  | nil => exact h
  | cons d ds ih =>
    obtain ⟨first, rest⟩ := List.forall_mem_cons.1 quotable
    exact ih (h.report k (.inr (.inr (.inr first)))) rest

theorem failWith (h : Alike v settled s s') (k : Nat) (e : InputError) :
    Alike v settled (s.failWith k e) (s'.failWith k e) :=
  h.modify (fun _ _ => rfl) fun _ _ twins => { twins with lastError := fun _ => rfl }

theorem channelOf (h : Alike v settled s s') (k : Nat) : s.channelOf k = s'.channelOf k :=
  h.view k (fun x => (x.map Interpreter.out).getD .primary) fun _ _ twins => twins.out

theorem lastError (h : Alike v settled s s') (known : settled k file) :
    s.lastError k = s'.lastError k :=
  h.view k (·.bind (·.lastError)) fun _ _ twins => twins.lastError ⟨file, known⟩

theorem interrupted (h : Alike v settled s s') (keeps : Keeps v inside) :
    Alike v settled (s.interrupted inside) (s'.interrupted inside) := by
  have counted : Alike v settled { s with gate := { s.gate with writes := s.gate.writes + 1 } }
      { s' with gate := { s'.gate with writes := s'.gate.writes + 1 } } :=
    { h with writes := h.writes.imp_right (congrArg (· + 1)) }
  obtain ⟨answers, after⟩ := keeps settled s.gate.writes s'.gate.writes _ _ h.writes counted
  exact { after with
    inside := by
      unfold Session.interrupted letIn
      dsimp only
      rw [answers, after.inside] }

theorem answer (h : Alike v settled s s') {n n' : Nat} (same : v.writes ∨ n = n') :
    s.gate.answer n = s'.gate.answer n' := by
  unfold Gate.answer
  rw [← h.refusal]
  rcases same with free | rfl
  · rw [h.unrefused free]
  · rfl

theorem print (h : Alike v settled s s') (t : Text) : Alike v settled (s.print t) (s'.print t) :=
  { h with out := congrArg (append · t) h.out }

theorem writeFrom (h : Alike v settled s s') (keeps : Keeps v inside) (k : Nat) (t : Text) :
    (s.writeFrom inside k t).1 = (s'.writeFrom inside k t).1 ∧
      Alike v settled (s.writeFrom inside k t).2 (s'.writeFrom inside k t).2 := by
  unfold Session.writeFrom
  rw [← h.channelOf k]
  cases s.channelOf k with
  | secondary =>
    exact ⟨rfl, { h with outSecondary := congrArg (append · t) h.outSecondary }⟩
  | primary =>
    have after := h.interrupted keeps
    rw [write_primary, write_primary, ← after.answer h.writes]
    cases (s.interrupted inside).gate.answer s.gate.writes with
    | error e => exact ⟨rfl, after⟩
    | ok _ => exact ⟨rfl, after.print t⟩

theorem dumpTokens (h : Alike v settled s s') (keeps : Keeps v inside) (k : Nat) (rows : List Text) :
    Alike v settled (dumpTokens inside k rows s) (dumpTokens inside k rows s') := by
  induction rows generalizing s s' with
  | nil => exact h
  | cons row rows ih => exact ih (h.writeFrom keeps k row).2

theorem machine (h : Alike v settled s s') (k : Nat) (m : Machine) :
    Alike v settled (s.modify k ({ · with machine := m })) (s'.modify k ({ · with machine := m })) :=
  h.modify (fun _ _ => rfl) fun _ _ twins => { twins with machine := rfl }

theorem relates (keeps : Keeps v inside) (settled : Nat → Text → Prop) (k : Nat) (debug : Bool)
    (p : Program) : (host inside k debug).Relates (host inside k debug) p Eq (Alike v settled) where
  write line := by
    rintro m _ s s' rfl h
    exact (h.machine k m).writeFrom keeps k line
  trace i := by
    rintro m _ s s' rfl h
    unfold host
    dsimp only
    split
    · rcases h.cases k with ⟨left, right⟩ | ⟨i, i', left, right, twins⟩
      · rw [left, right]
        exact h
      · rw [left, right]
        dsimp only
        rw [← twins.err]
        exact h.complain _ _
    · exact h

/-- A program fails at one of its instructions, or with a failure whose excerpt may differ if its file
is in doubt. -/
theorem place_of_failed (h : Alike v settled s s') (keeps : Keeps v inside) {p : Program}
    (compiled : compile file source = .ok p) (debug : Bool) (fuel : Nat) (m : Machine)
    {e : RuntimeError} (failed : (m.run (host inside k debug) fuel p s).1 = .failed e) :
    v.quotes e.diagnostic ∨ ¬ v.files e.diagnostic.place ∨ e.diagnostic.place = file := by
  rcases ended : m.run (host inside k debug) fuel p s with ⟨ending, m', last⟩
  rw [ended] at failed
  obtain rfl : ending = .failed e := failed
  obtain ⟨n, x, m'', steps, stops⟩ := Machine.stops_of_failed ended
  have host_keeps : (host inside k debug).Keeps fun s => ∃ s', Alike v settled s s' := by
    refine ⟨fun m line s ⟨s', h⟩ => ?_, fun p m i s ⟨s', h⟩ => ?_⟩
    · exact ⟨_, ((relates keeps settled k debug p).write line rfl h).2⟩
    · exact ⟨_, (relates keeps settled k debug p).trace i rfl h⟩
  have located {offset : Nat} {b : UInt8} (byte : p.chunk.code[offset]? = some b) (op : UInt8)
      (fault : MachineFault) : (RuntimeError.locate p offset op fault).diagnostic.place = file :=
    (stands_of_located compiled byte op fault).diagnostic.place
  cases stops with
  | refused fetched => exact .inr (.inr (located (Machine.byte_of_refused fetched) _ _))
  | fault fetched _ => exact .inr (.inr (located (Machine.byte_of_ready fetched) _ _))
  | @write m₁ _ s₁ s₂ i line f fetched executed written =>
    cases f with
    | message text => exact .inr (.inr (located (Machine.byte_of_ready fetched) _ _))
    | failure e =>
      obtain ⟨s'', after⟩ := host_keeps.write m'' line
        (host_keeps.trace p m₁ i (steps.leaves host_keeps ⟨s', h⟩))
      obtain ⟨first, given⟩ := refusal_of_error (congrArg Prod.fst written)
      by_cases doubtful : v.files e.diagnostic.place
      · exact .inl (after.failures _ given e rfl doubtful)
      · exact .inr (.inl doubtful)

theorem runProgram (h : Alike v settled s s') (keeps : Keeps v inside) {p : Program}
    (compiled : compile file source = .ok p) (known : settled k file) :
    (s.runProgram inside k p).1 = (s'.runProgram inside k p).1 ∧
      Alike v settled (s.runProgram inside k p).2 (s'.runProgram inside k p).2 := by
  unfold Session.runProgram
  rcases h.cases k with ⟨left, right⟩ | ⟨i, i', left, right, twins⟩
  · rw [left, right]
    exact ⟨rfl, h⟩
  · rw [left, right]
    dsimp only
    rw [← twins.machine, ← twins.options, ← h.fuel]
    have ends := Machine.run_related (m := i.machine) (Machine.bisimulation_eq p.chunk)
      (relates keeps settled k i.options.debug p) s.fuel rfl h
    have place {e : RuntimeError} :=
      h.place_of_failed (k := k) (e := e) keeps compiled i.options.debug s.fuel i.machine
    generalize i.machine.run (host inside k i.options.debug) s.fuel p s = r at ends place ⊢
    generalize i.machine.run (host inside k i.options.debug) s.fuel p s' = r' at ends ⊢
    obtain ⟨ending, m, t⟩ := r
    obtain ⟨_, _, t'⟩ := r'
    obtain ⟨rfl, rfl, alike⟩ := ends
    have stored := alike.machine k m
    cases ending with
    | finished | unfinished => exact ⟨rfl, stored⟩
    | failed e =>
      refine ⟨rfl, (stored.failWith k (.runtime e)).report k ?_⟩
      refine (place rfl).imp_right fun place => .inr (place.imp_right ?_)
      rintro rfl
      exact known

theorem runInput (h : Alike v settled s s') (keeps : Keeps v inside) (printTokens : Bool)
    (source : Text) (known : settled k file) :
    (s.runInput inside k printTokens file source).1 = (s'.runInput inside k printTokens file source).1 ∧
      Alike v settled (s.runInput inside k printTokens file source).2
        (s'.runInput inside k printTokens file source).2 := by
  unfold Session.runInput
  dsimp only
  have dumped : Alike v settled
      (if printTokens then Session.dumpTokens inside k (TokenDump.rows file source) s else s)
      (if printTokens then Session.dumpTokens inside k (TokenDump.rows file source) s' else s') := by
    split
    · exact h.dumpTokens keeps k _
    · exact h
  split
  · next ds faulty =>
    refine ⟨rfl, (dumped.failWith k _).reports k fun d mem => ?_⟩
    rw [(stands_of_faulty faulty d mem).place]
    exact known
  · next p compiled => exact dumped.runProgram keeps compiled known

theorem release (h : Alike v settled s s') (k : Nat) : Alike v settled (s.release k) (s'.release k) :=
  h.modify (fun _ _ => rfl) fun _ _ twins => { twins with busy := rfl }

/-- Inputs come to the same: from when an input is accepted, its source is the same in both. -/
theorem interpret (h : Alike v settled s s') (keeps : Keeps v inside) (k : Nat) (file source : Text) :
    let r := s.interpret inside k file source
    let r' := s'.interpret inside k file source
    r.1 = r'.1 ∧ r.2.lastError k = r'.2.lastError k ∧ Alike v settled r.2 r'.2 := by
  unfold Session.interpret
  rcases h.cases k with ⟨left, right⟩ | ⟨i, i', left, right, twins⟩
  · rw [left, right]
    refine ⟨rfl, ?_, h⟩
    rw [Session.lastError, Session.lastError, left, right]
  · rw [left, right]
    dsimp only
    rw [← twins.busy, ← twins.options]
    split
    · refine ⟨rfl, ?_, (h.failWith k .busy).report k (.inr (.inl (Int.le_refl 0)))⟩
      simp only [Session.lastError, interpreters_report, interpreters_failWith left,
        interpreters_failWith right, Option.bind_some]
    · have known : settle k file settled k file := .inr ⟨rfl, rfl⟩
      obtain ⟨outcome, after⟩ :=
        (h.accept k file source).runInput keeps i.options.printTokens source known
      have done := after.release k
      exact ⟨outcome, done.lastError known, done.mono fun _ _ => .inl⟩

theorem push (h : Alike v settled s s') {i i' : Interpreter}
    (twins : i.Twins v.files (settled s.interpreters.size) i') :
    Alike v settled { s with interpreters := s.interpreters.push i }
      { s' with interpreters := s'.interpreters.push i' } :=
  { h with
    interpreters := fun k => by
      rw [Array.getElem?_push, Array.getElem?_push, ← h.size]
      split
      · next last =>
        subst last
        exact .some twins
      · exact h.interpreters k }

theorem call (h : Alike v settled s s') (keeps : Keeps v inside) (k : Nat) (c : Call) :
    (s.call inside k c).1 = (s'.call inside k c).1 ∧
      Alike v settled (s.call inside k c).2 (s'.call inside k c).2 := by
  cases c with
  | interpret file source =>
    obtain ⟨outcome, error, after⟩ := h.interpret keeps k file source
    exact ⟨congrArg₂ Reply.interpreted outcome error, after⟩
  | reset =>
    simp only [Session.call, Session.reset]
    rcases h.cases k with ⟨left, right⟩ | ⟨i, i', left, right, twins⟩
    · rw [left, right]
      exact ⟨rfl, h⟩
    · rw [left, right]
      dsimp only
      rw [← twins.busy]
      split
      · exact ⟨rfl, h⟩
      · refine ⟨rfl, h.modify (fun _ _ => rfl) fun _ _ twins => ?_⟩
        exact { twins with machine := congrArg Machine.reset twins.machine }
  | duplicate =>
    simp only [Session.call, Session.duplicate]
    rcases h.cases k with ⟨left, right⟩ | ⟨i, i', left, right, twins⟩
    · rw [left, right]
      exact ⟨rfl, h⟩
    · rw [left, right]
      dsimp only
      rw [← twins.busy]
      split
      · exact ⟨rfl, h⟩
      · refine ⟨congrArg Reply.created h.size, h.push ?_⟩
        exact ⟨congrArg Machine.duplicate twins.machine, twins.options, twins.out, twins.err,
          twins.paints, rfl, fun _ _ => rfl, fun _ => rfl⟩
  | globals =>
    have names : s.globalNames k = s'.globalNames k :=
      h.view k (·.elim [] (·.machine.globalNames)) fun _ _ twins =>
        congrArg Machine.globalNames twins.machine
    exact ⟨congrArg Reply.names names, h⟩
  | listing =>
    have listing : s.listing k = s'.listing k :=
      h.view k (·.elim ([], none) (·.machine.listing)) fun _ _ twins =>
        congrArg Machine.listing twins.machine
    simp only [Session.call, listing]
    exact ⟨trivial, h⟩
  | setOutput c => exact ⟨rfl, h.modify (fun _ _ => rfl) fun _ _ twins => { twins with out := rfl }⟩
  | setErrorOutput c =>
    exact ⟨rfl, h.modify (fun _ _ => rfl) fun _ _ twins =>
      { twins with err := rfl, sources := fun _ _ => rfl }⟩

theorem gated (h : Alike v settled s s') (refusal : Option Refusal)
    (failures : ∀ r ∈ refusal, ∀ e, r.fault = .failure e → v.files e.diagnostic.place →
      v.quotes e.diagnostic) :
    Alike { v with writes := False } settled { s with gate := { refusal } }
      { s' with gate := { refusal } } :=
  { h with
    refusal := rfl
    inside := rfl
    writes := .inr rfl
    unrefused := False.elim
    failures := failures }

theorem restored (h : Alike v settled s s') {t t' : Session}
    (after : Alike { v with writes := False } settled t t') :
    Alike v settled { t with gate := s.gate } { t' with gate := s'.gate } :=
  { after with
    refusal := h.refusal
    inside := h.inside
    writes := h.writes
    unrefused := h.unrefused
    failures := h.failures }

end Alike

end Session

/-- The failures that writes of a request, or of one inside it, are refused with. -/
inductive Request.Supplies (e : RuntimeError) : Request → Prop where
  | here {k : Nat} {c : Call} {inside : List (List Request)} {r : Refusal} : r.fault = .failure e →
      Supplies e (.mk k c inside (some r))
  | within {k : Nat} {c : Call} {inside : List (List Request)} {refusal : Option Refusal}
      {rs : List Request} {r : Request} : rs ∈ inside → r ∈ rs → Supplies e r →
      Supplies e (.mk k c inside refusal)

/-- The failures that a request supplies about files in doubt may be quoted differently. -/
def Slack.Covers (v : Slack) (r : Request) : Prop :=
  ∀ e, r.Supplies e → v.files e.diagnostic.place → v.quotes e.diagnostic

namespace Session

mutual

theorem request_alike : (v : Slack) → (r : Request) → v.Covers r → (settled : Nat → Text → Prop) →
    (s s' : Session) → Alike v settled s s' →
    (request r s).1 = (request r s').1 ∧ Alike v settled (request r s).2 (request r s').2
  | v, .mk k c inside refusal, covered, settled, s, s', h => by
    unfold request
    split
    · obtain ⟨reply, after⟩ := h.call (keeps_undisturbed v) k c
      exact ⟨congrArg (Answer.mk · none) reply, after⟩
    · have waiting : ∀ rs ∈ inside, ∀ r ∈ rs, Slack.Covers { v with writes := False } r :=
        fun rs row r mem e supplies => covered e (.within row mem supplies)
      have keeps : Keeps { v with writes := False } (requestsAt inside) := by
        intro settled n n' s s' same h
        obtain rfl := same.resolve_left id
        exact requestsAt_alike _ inside waiting n settled s s' h
      have gated := h.gated refusal fun r given e failure => by
        obtain rfl : refusal = some r := given
        exact covered e (.here failure)
      obtain ⟨reply, after⟩ := gated.call keeps k c
      refine ⟨?_, h.restored after⟩
      dsimp only
      rw [reply, after.inside]

theorem requests_alike : (v : Slack) → (rs : List Request) → (∀ r ∈ rs, v.Covers r) →
    (settled : Nat → Text → Prop) → (s s' : Session) → Alike v settled s s' →
    (requests rs s).1 = (requests rs s').1 ∧ Alike v settled (requests rs s).2 (requests rs s').2
  | v, [], _, _, s, s', h => by
    unfold requests
    exact ⟨rfl, h⟩
  | v, r :: rs, covered, settled, s, s', h => by
    obtain ⟨first, rest⟩ := List.forall_mem_cons.1 covered
    obtain ⟨answer, after⟩ := request_alike v r first settled s s' h
    obtain ⟨answers, last⟩ := requests_alike v rs rest settled _ _ after
    unfold requests
    exact ⟨congrArg₂ List.cons answer answers, last⟩

theorem requestsAt_alike : (v : Slack) → (inside : List (List Request)) →
    (∀ rs ∈ inside, ∀ r ∈ rs, v.Covers r) → (n : Nat) → (settled : Nat → Text → Prop) →
    (s s' : Session) → Alike v settled s s' →
    (requestsAt inside n s).1 = (requestsAt inside n s').1 ∧
      Alike v settled (requestsAt inside n s).2 (requestsAt inside n s').2
  | v, [], _, n, _, s, s', h => by
    unfold requestsAt
    exact ⟨rfl, h⟩
  | v, rs :: later, covered, 0, settled, s, s', h => by
    unfold requestsAt
    exact requests_alike v rs (covered rs List.mem_cons_self) settled s s' h
  | v, rs :: later, covered, n + 1, settled, s, s', h => by
    have rest := requestsAt_alike v later (fun r mem => covered r (List.mem_cons_of_mem _ mem)) n
      settled s s' h
    unfold requestsAt
    exact rest

end

end Session

end StackScript
