import StackScript.Proofs.Episodes
import StackScript.Proofs.Session.Abreast

/-! Snapshots at the prompt. What is done at the prompt between a snapshot and its return is undone by
the return: the interpreter that was put aside is never touched, and what is gone on with is a copy of
it, which is kin to the interpreter that the snapshot was taken of. -/

namespace StackScript

structure Interpreter.Waiting (i : Interpreter) : Prop where
  idle : i.busy = false
  out : i.out = .primary

namespace Session

variable {s s' base base' : Session} {k k' j : Nat} {i x : Interpreter}

theorem lt_of_found (found : s.interpreters[k]? = some i) : k < s.interpreters.size :=
  (Array.getElem?_eq_some_iff.1 found).1

theorem found_push (found : s.interpreters[k]? = some i) (x : Interpreter) :
    (s.interpreters.push x)[k]? = some i := by
  rw [Array.getElem?_push, if_neg (Nat.ne_of_lt (lt_of_found found)), found]

theorem reset_of_idle (found : s.interpreters[k]? = some i) (idle : i.busy = false) :
    s.reset k = (.done, s.modify k fun i => { i with machine := i.machine.reset }) := by
  simp [reset, found, idle]

theorem duplicate_of_idle (found : s.interpreters[k]? = some i) (idle : i.busy = false) :
    s.duplicate k =
      (.created s.interpreters.size, { s with interpreters := s.interpreters.push i.duplicate }) := by
  simp [duplicate, found, idle]

theorem waiting_interpret (has : s.Has k Interpreter.Waiting) (file source : Text) :
    (s.interpret undisturbed k file source).2.Has k Interpreter.Waiting := by
  obtain ⟨i, found, waiting⟩ := has
  obtain ⟨_, j, _, out, _, _, left⟩ := interpret_course (P := fun j => j.out = .primary) found
    waiting.idle (admits_undisturbed k _) waiting.out fun _ _ out => out
  exact ⟨_, left, rfl, out⟩

/-- An interpreter that is not called on, in a session of the same surroundings. -/
structure Rests (base : Session) (j : Nat) (x : Interpreter) (s : Session) : Prop where
  found : s.interpreters[j]? = some x
  unrefused : s.gate.refusal = none
  disk : s.disk = base.disk
  fuel : s.fuel = base.fuel

theorem Rests.print (h : Rests base j x s) (t : Text) : Rests base j x (s.print t) := { h with }

theorem Rests.writeFrom (h : Rests base j x s) (k : Nat) (t : Text) :
    Rests base j x (s.writeFrom undisturbed k t).2 := by
  have left := bare_writeFrom k t s
  have interpreters := congrArg Session.interpreters left
  have disk := congrArg Session.disk left
  have fuel := congrArg Session.fuel left
  exact ⟨by rw [← h.found]; exact congrArg (·[j]?) interpreters, (refusal_of_bare left).trans h.unrefused,
    disk.trans h.disk, fuel.trans h.fuel⟩

theorem Rests.apart (base : Session) (x : Interpreter) (other : k ≠ j) :
    Apart undisturbed k (Rests base j x) where
  modify f s h := { h with found := by rw [interpreters_modify, if_neg other, h.found] }
  complain c t s h := by cases c <;> exact { h with }
  write t s h := h.writeFrom k t
  push i s h := { h with found := found_push h.found i }

end Session

namespace Prompt

open Session

variable {base base' : Session} {p p' : Prompt} {echo : Bool} {k : Nat} {x : Interpreter}

/-- What a command does. The one for help and those that are unknown only say so. -/
theorem command_cases (name : Text) :
    (∃ t, command name = print t) ∨ command name = listGlobals ∨
      (name = utf8 ":dis" ∧ command name = listProgram) ∨ command name = reset ∨
      (name = utf8 ":snapshot" ∧ command name = takeSnapshot) ∨ command name = restore := by
  have whole : command name = if name = utf8 ":help" then print help
      else if name = utf8 ":globals" then listGlobals
      else if name = utf8 ":dis" then listProgram
      else if name = utf8 ":reset" then reset
      else if name = utf8 ":snapshot" then takeSnapshot
      else if name = utf8 ":restore" then restore
      else print (utf8 "Unknown command " ++ name ++ utf8 " (try :help)\n") := by
    funext p
    simp only [command, ite_apply]
  rw [whole]
  split
  · exact .inl ⟨_, rfl⟩
  split
  · exact .inr (.inl rfl)
  split
  · next dis => exact .inr (.inr (.inl ⟨dis, rfl⟩))
  split
  · exact .inr (.inr (.inr (.inl rfl)))
  split
  · next taken => exact .inr (.inr (.inr (.inr (.inl ⟨taken, rfl⟩))))
  split
  · exact .inr (.inr (.inr (.inr (.inr rfl))))
  · exact .inl ⟨_, rfl⟩

theorem command_snapshot (p : Prompt) : p.command (utf8 ":snapshot") = p.takeSnapshot := by
  have others : utf8 ":snapshot" ≠ utf8 ":help" ∧ utf8 ":snapshot" ≠ utf8 ":globals" ∧
      utf8 ":snapshot" ≠ utf8 ":dis" ∧ utf8 ":snapshot" ≠ utf8 ":reset" := by decide
  simp [command, others]

theorem command_restore (p : Prompt) : p.command (utf8 ":restore") = p.restore := by
  have others : utf8 ":restore" ≠ utf8 ":help" ∧ utf8 ":restore" ≠ utf8 ":globals" ∧
      utf8 ":restore" ≠ utf8 ":dis" ∧ utf8 ":restore" ≠ utf8 ":reset" ∧
      utf8 ":restore" ≠ utf8 ":snapshot" := by decide
  simp [command, others]

def Aside (p p' : Prompt) (k k' : Nat) : Prop :=
  p.current ≠ k ∧ p'.current ≠ k' ∧ ∃ x x', p.session.interpreters[k]? = some x ∧
    p'.session.interpreters[k']? = some x' ∧ x.Kin noFile x' ∧ x.busy = false

/-- What is beside the current interpreter stays there, whatever becomes of that. -/
def LeavesAside (p q : Prompt) : Prop :=
  ∀ {k : Nat} {x : Interpreter}, p.current ≠ k → p.session.interpreters[k]? = some x →
    q.current ≠ k ∧ q.session.interpreters[k]? = some x

theorem rel_aside {q q' : Prompt} (leaves : LeavesAside p q) (leaves' : LeavesAside p' q')
    {snapshot snapshot' : Option Nat} (h : Option.Rel (Aside p p') snapshot snapshot') :
    Option.Rel (Aside q q') snapshot snapshot' := by
  cases h with
  | none => exact .none
  | some aside =>
    obtain ⟨other, other', x, x', found, found', kin, idle⟩ := aside
    obtain ⟨other, found⟩ := leaves other found
    obtain ⟨other', found'⟩ := leaves' other' found'
    exact .some ⟨other, other', x, x', found, found', kin, idle⟩

theorem reset_of_idle (found : p.session.interpreters[p.current]? = some x) (idle : x.busy = false) :
    p.reset = { p with
      session := p.session.modify p.current fun i => { i with machine := i.machine.reset } } := by
  unfold reset
  rw [Session.reset_of_idle found idle]

theorem takeSnapshot_of_idle (found : p.session.interpreters[p.current]? = some x)
    (idle : x.busy = false) : p.takeSnapshot = { p with
      session := { p.session with interpreters := p.session.interpreters.push x.duplicate }
      snapshot := some p.session.interpreters.size } := by
  unfold takeSnapshot
  rw [duplicate_of_idle found idle]

theorem restore_of_kept (kept : p.snapshot = some k) (found : p.session.interpreters[k]? = some x)
    (idle : x.busy = false) : p.restore = { p with
      session := { p.session with
        interpreters := p.session.interpreters.push x.duplicate }.modify p.session.interpreters.size
          ({ · with out := .primary })
      current := p.session.interpreters.size } := by
  unfold restore
  rw [kept]
  dsimp only
  rw [duplicate_of_idle found idle]

theorem current_restored (kept : p.snapshot = some k) (found : p.session.interpreters[k]? = some x)
    (idle : x.busy = false) :
    p.restore.session.interpreters[p.restore.current]? = some { x.duplicate with out := .primary } := by
  rw [restore_of_kept kept found idle, interpreters_modify, if_pos rfl]
  exact congrArg (Option.map _) Array.getElem?_push_size

theorem leavesAside_reset (found : p.session.interpreters[p.current]? = some x) (idle : x.busy = false) :
    LeavesAside p p.reset := by
  intro k y other found'
  rw [reset_of_idle found idle]
  exact ⟨other, by rw [interpreters_modify, if_neg other, found']⟩

theorem leavesAside_restore (kept : p.snapshot = some k) (found : p.session.interpreters[k]? = some x)
    (idle : x.busy = false) : LeavesAside p p.restore := by
  intro j y other found'
  have later : p.session.interpreters.size ≠ j := Nat.ne_of_gt (lt_of_found found')
  rw [restore_of_kept kept found idle]
  exact ⟨later, by rw [interpreters_modify, if_neg later]; exact found_push found' _⟩

theorem leavesAside_interpret (unrefused : p.session.gate.refusal = none) (source : Text) :
    LeavesAside p (p.interpret source) := by
  intro k x other found
  have rests : Rests p.session k x p.session := ⟨found, unrefused, rfl, rfl⟩
  exact ⟨other, ((Rests.apart p.session x other).interpret fileName source rests).found⟩

/-- What every printed text keeps of two prompts is kept while prompts are shown. -/
theorem shows_keeps (R : Prompt → Prompt → Prop)
    (print : ∀ t p p', R p p' → R (p.print t) (p'.print t)) (echo : Bool) (prompts : List Text)
    (p p' : Prompt) (before : R p p') : R (p.shows echo prompts) (p'.shows echo prompts) := by
  cases echo with
  | false => exact before
  | true =>
    simp only [shows, if_true]
    induction prompts generalizing p p' with
    | nil => exact before
    | cons t prompts ih => exact ih _ _ (print t _ _ before)

/-- Two prompts that cannot be told apart, but by the program that ran last. Since two earlier sessions
the same has been shown at both. -/
structure Alongside (base base' : Session) (p p' : Prompt) : Prop where
  sessions : Abreast base base' p.current p'.current noFile p.session p'.session
  waiting : p.session.Has p.current Interpreter.Waiting
  snapshots : Option.Rel (Aside p p') p.snapshot p'.snapshot

namespace Alongside

theorem print (h : Alongside base base' p p') (t : Text) : Alongside base base' (p.print t) (p'.print t) where
  sessions := h.sessions.print t
  waiting := h.waiting
  snapshots := h.snapshots

theorem shows (h : Alongside base base' p p') (echo : Bool) (prompts : List Text) :
    Alongside base base' (p.shows echo prompts) (p'.shows echo prompts) :=
  shows_keeps (Alongside base base') (fun t _ _ h => h.print t) echo prompts p p' h

theorem current (h : Alongside base base' p p') : ∃ i i', p.session.interpreters[p.current]? = some i ∧
    p'.session.interpreters[p'.current]? = some i' ∧ i.Kin noFile i' ∧ i.Waiting := by
  obtain ⟨i, i', found, found', kin⟩ := h.sessions.interpreters
  obtain ⟨_, same, waiting⟩ := h.waiting
  obtain rfl := Option.some.inj (same.symm.trans found)
  exact ⟨_, _, found, found', kin, waiting⟩

theorem listGlobals (h : Alongside base base' p p') :
    Alongside base base' p.listGlobals p'.listGlobals := by
  obtain ⟨i, i', found, found', kin, _⟩ := h.current
  have names : p.session.globalNames p.current = p'.session.globalNames p'.current := by
    simp only [globalNames, found, found', Option.elim, Machine.globalNames, kin.machine.globals]
  unfold Prompt.listGlobals
  rw [names]
  exact h.print _

theorem reset (h : Alongside base base' p p') : Alongside base base' p.reset p'.reset := by
  obtain ⟨i, i', found, found', kin, waiting⟩ := h.current
  have idle' := kin.busy.symm.trans waiting.idle
  have snapshots := rel_aside (leavesAside_reset found waiting.idle) (leavesAside_reset found' idle')
    h.snapshots
  rw [reset_of_idle found waiting.idle, reset_of_idle found' idle'] at snapshots ⊢
  exact ⟨h.sessions.modify fun kin => { kin with machine := kin.machine.reset },
    h.waiting.modify fun _ waiting => ⟨waiting.idle, waiting.out⟩, snapshots⟩

theorem takeSnapshot (h : Alongside base base' p p') :
    Alongside base base' p.takeSnapshot p'.takeSnapshot := by
  obtain ⟨i, i', found, found', kin, waiting⟩ := h.current
  rw [takeSnapshot_of_idle found waiting.idle,
    takeSnapshot_of_idle found' (kin.busy.symm.trans waiting.idle)]
  exact {
    sessions := { h.sessions with
      interpreters := ⟨i, i', found_push found _, found_push found' _, kin⟩
      shown := { h.sessions.shown with } }
    waiting := ⟨i, found_push found _, waiting⟩
    snapshots := .some ⟨Nat.ne_of_lt (lt_of_found found), Nat.ne_of_lt (lt_of_found found'), i.duplicate,
      i'.duplicate, Array.getElem?_push_size, Array.getElem?_push_size, kin.duplicate, rfl⟩ }

theorem kept (h : Alongside base base' p p') : (p.snapshot = none ∧ p'.snapshot = none) ∨
    ∃ k k', p.snapshot = some k ∧ p'.snapshot = some k' ∧ Aside p p' k k' := by
  have rel := h.snapshots
  generalize p.snapshot = k at rel ⊢
  generalize p'.snapshot = k' at rel ⊢
  cases rel with
  | none => exact .inl ⟨rfl, rfl⟩
  | some aside => exact .inr ⟨_, _, rfl, rfl, aside⟩

theorem restore (h : Alongside base base' p p') : Alongside base base' p.restore p'.restore := by
  rcases h.kept with ⟨kept, kept'⟩ | ⟨k, k', kept, kept', other, other', x, x', found, found', kin, idle⟩
  · simp only [Prompt.restore, kept, kept']
    exact h.print _
  · have idle' := kin.busy.symm.trans idle
    have current := current_restored kept found idle
    have current' := current_restored kept' found' idle'
    have snapshots := rel_aside (leavesAside_restore kept found idle)
      (leavesAside_restore kept' found' idle') h.snapshots
    rw [restore_of_kept kept found idle] at current snapshots ⊢
    rw [restore_of_kept kept' found' idle'] at current' snapshots ⊢
    exact {
      sessions := { h.sessions with
        interpreters := ⟨_, _, current, current', { kin.duplicate with out := rfl }⟩
        shown := { h.sessions.shown with } }
      waiting := ⟨_, current, rfl, rfl⟩
      snapshots := snapshots }

theorem interpret (h : Alongside base base' p p') (source : Text) :
    Alongside base base' (p.interpret source) (p'.interpret source) := by
  obtain ⟨i, i', found, found', kin, waiting⟩ := h.current
  exact {
    sessions := h.sessions.interpret ⟨i, found, waiting.idle⟩ fileName source
    waiting := waiting_interpret h.waiting fileName source
    snapshots := rel_aside (leavesAside_interpret h.sessions.unrefused source)
      (leavesAside_interpret h.sessions.unrefused' source) h.snapshots }

/-- The program that ran last is the only thing that may differ, and it is only listed. -/
theorem command (h : Alongside base base' p p') {name : Text} (fair : name = utf8 ":dis" → p = p') :
    Alongside base base' (p.command name) (p'.command name) := by
  rcases command_cases name with ⟨t, same⟩ | same | ⟨dis, same⟩ | same | ⟨_, same⟩ | same
  all_goals rw [same]
  · exact h.print t
  · exact h.listGlobals
  · obtain rfl := fair dis
    unfold Prompt.listProgram
    dsimp only
    split
    · exact (h.print _).print _
    · exact h.print _
  · exact h.reset
  · exact h.takeSnapshot
  · exact h.restore

theorem carryOut (h : Alongside base base' p p') (echo : Bool) {e : Episode}
    (fair : ∀ line, e = .command line → Text.trim line = utf8 ":dis" → p = p') :
    Alongside base base' (e.carryOut echo p) (e.carryOut echo p') := by
  have shown := h.shows echo e.prompts
  cases e with
  | blank | aborted => exact shown
  | command line => exact shown.command fun dis => by rw [fair line rfl dis]
  | input lines => exact shown.interpret _

theorem episodes (h : Alongside base base' p p') (echo : Bool) {es : List Episode}
    (unlisted : ∀ line, .command line ∈ es → Text.trim line ≠ utf8 ":dis") :
    Alongside base base' (es.foldl (Episode.carryOut echo) p) (es.foldl (Episode.carryOut echo) p') := by
  induction es generalizing p p' with
  | nil => exact h
  | cons e es ih =>
    refine ih (h.carryOut echo fun line command dis => absurd dis (unlisted line ?_)) fun line mem =>
      unlisted line (List.mem_cons_of_mem _ mem)
    exact command ▸ List.mem_cons_self

theorem same (h : Alongside base base p p) (echo : Bool) (es : List Episode) :
    Alongside base base (es.foldl (Episode.carryOut echo) p) (es.foldl (Episode.carryOut echo) p) := by
  induction es generalizing p with
  | nil => exact h
  | cons e es ih => exact ih (h.carryOut echo fun _ _ _ => rfl)

end Alongside

/-- A snapshot that was taken, at a prompt with the surroundings of a session. -/
structure Keeping (base : Session) (k : Nat) (x : Interpreter) (p : Prompt) : Prop where
  kept : p.snapshot = some k
  other : p.current ≠ k
  rests : Rests base k x p.session

namespace Keeping

theorem print (h : Keeping base k x p) (t : Text) : Keeping base k x (p.print t) :=
  { h with rests := h.rests.print t }

theorem shows (h : Keeping base k x p) (echo : Bool) (prompts : List Text) :
    Keeping base k x (p.shows echo prompts) :=
  shows_keeps (fun q _ => Keeping base k x q) (fun t _ _ h => h.print t) echo prompts p p h

theorem reset (h : Keeping base k x p) : Keeping base k x p.reset := by
  have rests := (Rests.apart base x h.other).call .reset h.rests
  have called : p.session.call undisturbed p.current .reset = p.session.reset p.current := rfl
  rw [called] at rests
  unfold Prompt.reset
  split
  · next message session refused =>
    rw [refused] at rests
    have still : Keeping base k x { p with session } := { h with rests := rests }
    exact still.print _
  · next reply session _ done =>
    rw [done] at rests
    exact { h with rests := rests }

theorem restore (h : Keeping base k x p) (idle : x.busy = false) : Keeping base k x p.restore := by
  obtain ⟨other, found⟩ := leavesAside_restore h.kept h.rests.found idle h.other h.rests.found
  rw [restore_of_kept h.kept h.rests.found idle] at other found ⊢
  exact ⟨h.kept, other, { h.rests with found := found }⟩

theorem command (h : Keeping base k x p) (idle : x.busy = false) {name : Text}
    (fair : name ≠ utf8 ":snapshot") : Keeping base k x (p.command name) := by
  rcases command_cases name with ⟨t, same⟩ | same | ⟨_, same⟩ | same | ⟨taken, same⟩ | same
  all_goals rw [same]
  · exact h.print t
  · exact h.print _
  · unfold Prompt.listProgram
    dsimp only
    split
    · exact (h.print _).print _
    · exact h.print _
  · exact h.reset
  · exact absurd taken fair
  · exact h.restore idle

theorem interpret (h : Keeping base k x p) (source : Text) : Keeping base k x (p.interpret source) :=
  { h with rests := (Rests.apart base x h.other).interpret fileName source h.rests }

theorem episodes (h : Keeping base k x p) (idle : x.busy = false) (echo : Bool) {es : List Episode}
    (fair : ∀ line, .command line ∈ es → Text.trim line ≠ utf8 ":snapshot") :
    Keeping base k x (es.foldl (Episode.carryOut echo) p) := by
  induction es generalizing p with
  | nil => exact h
  | cons e es ih =>
    refine ih ?_ fun line mem => fair line (List.mem_cons_of_mem _ mem)
    have shown := h.shows echo e.prompts
    cases e with
    | blank | aborted => exact shown
    | command line => exact shown.command idle (fair line List.mem_cons_self)
    | input lines => exact shown.interpret _

/-- A return to a snapshot leaves the prompt as it was when the snapshot was taken. -/
theorem alongside_restore {saved : Prompt} {i : Interpreter} (taken : Keeping saved.session k i.duplicate saved)
    (found : saved.session.interpreters[saved.current]? = some i) (waiting : i.Waiting)
    (h : Keeping saved.session k i.duplicate p) :
    Alongside saved.session p.restore.session saved p.restore := by
  have current := current_restored h.kept h.rests.found rfl
  have after := h.restore rfl
  have kin : i.Kin noFile { i.duplicate.duplicate with out := .primary } :=
    { Interpreter.Kin.of_duplicate waiting.idle with out := waiting.out }
  refine ⟨⟨⟨i, _, found, current, kin⟩, taken.rests.unrefused, after.rests.unrefused,
    after.rests.disk.symm, after.rests.fuel.symm, .nothing _ _⟩, ⟨i, found, waiting⟩, ?_⟩
  rw [taken.kept, after.kept]
  exact .some ⟨taken.other, after.other, i.duplicate, i.duplicate, taken.rests.found, after.rests.found,
    .refl _ _, rfl⟩

end Keeping

theorem shows_still (echo : Bool) (prompts : List Text) (p : Prompt) :
    (p.shows echo prompts).current = p.current ∧
      (p.shows echo prompts).session.interpreters = p.session.interpreters :=
  shows_keeps (fun q _ => q.current = p.current ∧ q.session.interpreters = p.session.interpreters)
    (fun _ _ _ h => h) echo prompts p p ⟨rfl, rfl⟩

theorem alongside_start {s : Session} {i : Interpreter} (found : s.interpreters[0]? = some i)
    (idle : i.busy = false) (unrefused : s.gate.refusal = none) :
    Alongside (start s).session (start s).session (start s) (start s) := by
  have first : (start s).session.interpreters[0]? = some { i with out := .primary } := by
    have same := interpreters_modify s 0 0 ({ · with out := .primary })
    rw [if_pos rfl, found] at same
    exact same
  exact ⟨⟨⟨_, _, first, first, .refl _ _⟩, unrefused, unrefused, rfl, rfl, .nothing _ _⟩,
    ⟨_, first, idle, rfl⟩, .none⟩

theorem keeping_snapshot (ready : Alongside base base' p p) (echo : Bool) {take : Text}
    (takes : Text.trim take = utf8 ":snapshot") (found : p.session.interpreters[p.current]? = some x)
    (waiting : x.Waiting) :
    let saved := (Episode.command take).carryOut echo p
    saved.session.interpreters[saved.current]? = some x ∧
      ∃ k, Keeping saved.session k x.duplicate saved := by
  let q := p.shows echo (Episode.command take).prompts
  obtain ⟨same, interpreters⟩ := shows_still echo (Episode.command take).prompts p
  have found' : q.session.interpreters[q.current]? = some x := by rw [same, interpreters, found]
  have saved : (Episode.command take).carryOut echo p = { q with
      session := { q.session with interpreters := q.session.interpreters.push x.duplicate }
      snapshot := some q.session.interpreters.size } := by
    rw [Episode.carryOut, Episode.effect, takes, command_snapshot]
    exact takeSnapshot_of_idle found' waiting.idle
  rw [saved]
  exact ⟨found_push found' _, _, rfl, Nat.ne_of_lt (lt_of_found found'), Array.getElem?_push_size,
    (ready.shows echo _).sessions.unrefused, rfl, rfl⟩

/-- A return to a snapshot undoes whatever was done since. Whatever was done at the prompt before, and
whatever is done between the snapshot and the return but taking another one, the globals are then those
at the snapshot, the interpreter has the same options, bounds and channels, and for every sequence of
lines that follows, apart from ones that list the last program, the same prompts are asked and the same
is shown on every channel as would have been right behind the snapshot. -/
theorem restore_returns_to_snapshot {s : Session} {i : Interpreter} (found : s.interpreters[0]? = some i)
    (idle : i.busy = false) (unrefused : s.gate.refusal = none) (echo : Bool)
    (earlier between : List Episode) {take back : Text} (takes : Text.trim take = utf8 ":snapshot")
    (returns : Text.trim back = utf8 ":restore")
    (kept : ∀ line, .command line ∈ between → Text.trim line ≠ utf8 ":snapshot") :
    let p := earlier.foldl (Episode.carryOut echo) (start s)
    let saved := (Episode.command take).carryOut echo p
    let restored := (between ++ [Episode.command back]).foldl (Episode.carryOut echo) saved
    (∃ x y, p.session.interpreters[p.current]? = some x ∧
      restored.session.interpreters[restored.current]? = some y ∧
      y.machine.globals = x.machine.globals ∧ x.Kin noFile y) ∧
    ∀ later : List Episode, (∀ e ∈ later, e.Right) →
      (∀ line, .command line ∈ later → Text.trim line ≠ utf8 ":dis") →
      let t := loop echo (later.flatMap Episode.events) [] saved
      let t' := loop echo (later.flatMap Episode.events) [] restored
      t'.asked = t.asked ∧ t'.unread = t.unread ∧
        ShownAlike saved.session t.final.session restored.session t'.final.session := by
  intro p saved restored
  have ready := (alongside_start found idle unrefused).same echo earlier
  obtain ⟨x, _, current, _, _, waiting⟩ := ready.current
  obtain ⟨current', k, taken⟩ := keeping_snapshot ready echo takes current waiting
  have held := (taken.episodes rfl echo kept).shows echo (Episode.command back).prompts
  have returned : restored = ((between.foldl (Episode.carryOut echo) saved).shows echo
      (Episode.command back).prompts).restore := by
    have last : restored =
        (Episode.command back).carryOut echo (between.foldl (Episode.carryOut echo) saved) :=
      List.foldl_concat ..
    rw [last, Episode.carryOut, Episode.effect, returns, command_restore]
  have alongside := taken.alongside_restore current' waiting held
  rw [← returned] at alongside
  refine ⟨?_, fun later right unlisted => ?_⟩
  · obtain ⟨x', y, there, there', kin, _⟩ := alongside.current
    obtain rfl : x = x' := Option.some.inj (current'.symm.trans there)
    exact ⟨x, y, current, there', kin.machine.globals.symm, kin⟩
  · have clean : saved.buffer = [] := (buffer_carryOut echo p _).trans (buffer_episodes echo earlier _)
    have clean' : restored.buffer = [] := (buffer_episodes echo _ saved).trans clean
    dsimp only
    rw [loop_of_episodes echo clean right, loop_of_episodes echo clean' right]
    exact ⟨rfl, rfl, ((alongside.episodes echo unlisted).shows echo _).sessions.shown⟩

theorem restore_returns_to_snapshot_assigned :
    let input (line : String) : Episode := .input [utf8 line]
    let earlier := [input "let a = 1;"]
    let between := [input "a = 2;", .command (utf8 ":reset"), input "print a;"]
    let later := [input "print a;"]
    let p := earlier.foldl (Episode.carryOut true) (start (new {}))
    let saved := (Episode.command (utf8 " :snapshot")).carryOut true p
    let restored := (between ++ [Episode.command (utf8 ":restore")]).foldl (Episode.carryOut true) saved
    let t := loop true (later.flatMap Episode.events) [] saved
    let t' := loop true (later.flatMap Episode.events) [] restored
    t'.asked = t.asked ∧ ShownAlike saved.session t.final.session restored.session t'.final.session ∧
      t.final.session.out.toList = saved.session.out.toList ++ utf8 "lox> 1\nlox> " := by
  intro input earlier between later
  have begins : Begins (utf8 "print a;") := by
    refine ⟨?_, ?_, ?_⟩
    · unfold Leaves
      decide +kernel
    · unfold IsCommand
      decide +kernel
    · unfold IsBlank
      decide +kernel
  have complete : Complete [utf8 "print a;"] := {
    some := List.cons_ne_nil _ _
    begins := by
      rintro line ⟨⟩
      exact begins
    closed := by decide +kernel
    opened := by
      intro front isFront some short
      rcases List.prefix_cons_iff.1 isFront with none | ⟨rest, rfl, isRest⟩
      · exact absurd none some
      · exact absurd (congrArg (_ :: ·) (List.prefix_nil.1 isRest)) short }
  have all := @restore_returns_to_snapshot (new {}) _ rfl rfl rfl true earlier between
    (utf8 " :snapshot") (utf8 ":restore") (by decide +kernel) (by decide +kernel) (by
      simp [between, input]
      decide +kernel)
  obtain ⟨asked, _, shown⟩ := all.2 later (List.forall_mem_singleton.2 complete) (by simp [later, input])
  exact ⟨asked, shown, by decide +kernel⟩

end Prompt

end StackScript
