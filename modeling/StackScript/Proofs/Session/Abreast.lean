import StackScript.Proofs.Session.Twins

/-! Interpreters of different sessions. What an interpreter makes of an input, and what it shows of it,
hangs on its globals and bounds, its options and channels, and on the input. It does not hang on where
it stands in its session, on the other interpreters there, on what was shown before, nor on what it has
been through itself. -/

namespace StackScript

/-- Machines that differ at most in what they have run last. -/
structure Machine.Kin (m m' : Machine) : Prop where
  globals : m.globals = m'.globals
  maxStack : m.maxStack = m'.maxStack
  limit : m.limit = m'.limit

namespace Machine.Kin

variable {m m' : Machine}

theorem load (h : m.Kin m') (p : Program) : m.load p = m'.load p := by
  simp only [Machine.load, resetState, h.globals, h.maxStack, h.limit]

theorem reset (h : m.Kin m') : m.reset.Kin m'.reset := ⟨rfl, h.maxStack, h.limit⟩

theorem duplicate (h : m.Kin m') : m.duplicate.Kin m'.duplicate := ⟨h.globals, h.maxStack, h.limit⟩

theorem of_duplicate (m : Machine) : m.Kin m.duplicate := ⟨rfl, rfl, rfl⟩

end Machine.Kin

/-- Interpreters that differ at most in what they have been through. The sources of some files are known
to be the same. -/
structure Interpreter.Kin (known : Text → Prop) (i i' : Interpreter) : Prop where
  machine : i.machine.Kin i'.machine
  options : i.options = i'.options
  out : i.out = i'.out
  err : i.err = i'.err
  paints : i.paints = i'.paints
  busy : i.busy = i'.busy
  sources : ∀ file, known file → i.sources[file]? = i'.sources[file]?

def noFile : Text → Prop := fun _ => False

namespace Interpreter.Kin

variable {known : Text → Prop} {i i' : Interpreter}

theorem refl (known : Text → Prop) (i : Interpreter) : i.Kin known i :=
  ⟨⟨rfl, rfl, rfl⟩, rfl, rfl, rfl, rfl, rfl, fun _ _ => rfl⟩

theorem forget (h : i.Kin known i') : i.Kin noFile i' := { h with sources := nofun }

theorem accept (h : i.Kin known i') (file source : Text) :
    (i.accept file source).Kin (· = file) (i'.accept file source) :=
  { h with
    busy := rfl
    sources := by
      rintro _ rfl
      simp [Interpreter.accept] }

theorem duplicate (h : i.Kin known i') : i.duplicate.Kin noFile i'.duplicate :=
  { h with machine := h.machine.duplicate, busy := rfl, sources := nofun }

theorem of_duplicate (idle : i.busy = false) : i.Kin noFile i.duplicate :=
  ⟨.of_duplicate i.machine, rfl, rfl, rfl, rfl, idle, nofun⟩

theorem render (h : i.Kin known i') {d : Diagnostic} (place : known d.place)
    (disk : Text → Option Text) : i.render disk d = i'.render disk d := by
  unfold Interpreter.render
  rw [h.paints]
  refine Excerpt.render_congr (.inr ?_) _
  rw [h.sources _ place]

end Interpreter.Kin

namespace Session

def GrownAlike (b c b' c' : Array UInt8) : Prop := ∃ t : Text, c = append b t ∧ c' = append b' t

theorem GrownAlike.none (b b' : Array UInt8) : GrownAlike b b b' b' := ⟨[], rfl, rfl⟩

theorem GrownAlike.text {b c b' c' : Array UInt8} (h : GrownAlike b c b' c') (t : Text) :
    GrownAlike b (append c t) b' (append c' t) := by
  obtain ⟨u, rfl, rfl⟩ := h
  exact ⟨u ++ t, List.foldl_append.symm, List.foldl_append.symm⟩

/-- Two sessions have shown the same, each since another one. -/
structure ShownAlike (s t s' t' : Session) : Prop where
  out : GrownAlike s.out t.out s'.out t'.out
  err : GrownAlike s.err t.err s'.err t'.err
  outSecondary : GrownAlike s.outSecondary t.outSecondary s'.outSecondary t'.outSecondary
  errSecondary : GrownAlike s.errSecondary t.errSecondary s'.errSecondary t'.errSecondary

theorem ShownAlike.nothing (s s' : Session) : ShownAlike s s s' s' :=
  ⟨.none _ _, .none _ _, .none _ _, .none _ _⟩

/-- A program that fails where all its lines are taken fails at one of its instructions. -/
theorem place_of_failed_unrefused {s : Session} {k : Nat} {file source : Text} {p : Program}
    (unrefused : s.gate.refusal = none) (compiled : compile file source = .ok p) (debug : Bool)
    (fuel : Nat) (m : Machine) {e : RuntimeError}
    (failed : (m.run (host undisturbed k debug) fuel p s).1 = .failed e) : e.diagnostic.place = file := by
  have alike := Alike.refl (fun _ => True) (fun _ => False) (fun _ _ => True) unrefused
  rcases alike.place_of_failed (keeps_undisturbed _) compiled debug fuel m failed with
    never | never | place
  · exact never.elim
  · exact absurd trivial never
  · exact place

/-- Two sessions seen from one interpreter in each: the interpreters are kin, and since two earlier
sessions the same has been shown. -/
structure Abreast (base base' : Session) (k k' : Nat) (known : Text → Prop) (s s' : Session) : Prop where
  interpreters : ∃ i i', s.interpreters[k]? = some i ∧ s'.interpreters[k']? = some i' ∧ i.Kin known i'
  unrefused : s.gate.refusal = none
  unrefused' : s'.gate.refusal = none
  disk : s.disk = s'.disk
  fuel : s.fuel = s'.fuel
  shown : ShownAlike base s base' s'

namespace Abreast

variable {base base' s s' : Session} {k k' : Nat} {known known' : Text → Prop} {file source : Text}

theorem modify (h : Abreast base base' k k' known s s') {f g : Interpreter → Interpreter}
    (same : ∀ {i i'}, i.Kin known i' → (f i).Kin known' (g i')) :
    Abreast base base' k k' known' (s.modify k f) (s'.modify k' g) := by
  obtain ⟨i, i', found, found', kin⟩ := h.interpreters
  refine { h with interpreters := ⟨f i, g i', ?_, ?_, same kin⟩, shown := { h.shown with } }
  · rw [interpreters_modify, if_pos rfl, found]
    rfl
  · rw [interpreters_modify, if_pos rfl, found']
    rfl

theorem print (h : Abreast base base' k k' known s s') (t : Text) :
    Abreast base base' k k' known (s.print t) (s'.print t) :=
  { h with shown := { h.shown with out := h.shown.out.text t } }

theorem complain (h : Abreast base base' k k' known s s') (c : Channel) (t : Text) :
    Abreast base base' k k' known (s.complain c t) (s'.complain c t) := by
  cases c with
  | primary => exact { h with shown := { h.shown with err := h.shown.err.text t } }
  | secondary =>
    exact { h with shown := { h.shown with errSecondary := h.shown.errSecondary.text t } }

theorem report (h : Abreast base base' k k' known s s') {d : Diagnostic} (place : known d.place) :
    Abreast base base' k k' known (s.report k d) (s'.report k' d) := by
  obtain ⟨i, i', found, found', kin⟩ := h.interpreters
  unfold Session.report
  rw [found, found', ← h.disk]
  dsimp only
  rw [← kin.err, ← kin.render place]
  exact h.complain _ _

theorem reports (h : Abreast base base' k k' known s s') {ds : List Diagnostic}
    (places : ∀ d ∈ ds, known d.place) : Abreast base base' k k' known
      (ds.foldl (fun s d => s.report k d) s) (ds.foldl (fun s d => s.report k' d) s') := by
  induction ds generalizing s s' with
  | nil => exact h
  | cons d ds ih =>
    obtain ⟨first, rest⟩ := List.forall_mem_cons.1 places
    exact ih (h.report first) rest

theorem failWith (h : Abreast base base' k k' known s s') (e : InputError) :
    Abreast base base' k k' known (s.failWith k e) (s'.failWith k' e) :=
  h.modify fun kin => { kin with }

theorem machine (h : Abreast base base' k k' known s s') (m : Machine) :
    Abreast base base' k k' known (s.modify k ({ · with machine := m }))
      (s'.modify k' ({ · with machine := m })) :=
  h.modify fun kin => { kin with machine := ⟨rfl, rfl, rfl⟩ }

theorem writeFrom (h : Abreast base base' k k' known s s') (t : Text) :
    (s.writeFrom undisturbed k t).1 = (s'.writeFrom undisturbed k' t).1 ∧
      Abreast base base' k k' known (s.writeFrom undisturbed k t).2 (s'.writeFrom undisturbed k' t).2 := by
  obtain ⟨i, i', found, found', kin⟩ := h.interpreters
  have channel : s.channelOf k = i.out := by simp [channelOf, found]
  have channel' : s'.channelOf k' = i.out := by simp [channelOf, found', kin.out]
  rw [Session.writeFrom, Session.writeFrom, channel, channel']
  cases i.out with
  | secondary =>
    exact ⟨rfl, { h with shown := { h.shown with outSecondary := h.shown.outSecondary.text t } }⟩
  | primary =>
    have taken {s : Session} (unrefused : s.gate.refusal = none) :
        (s.interrupted undisturbed).gate.answer s.gate.writes = .ok () := by
      have same : (s.interrupted undisturbed).gate.refusal = none := unrefused
      rw [Gate.answer, same]
    have counted : Abreast base base' k k' known (s.interrupted undisturbed) (s'.interrupted undisturbed) :=
      { h with shown := { h.shown with } }
    rw [write_primary, write_primary, taken h.unrefused, taken h.unrefused']
    exact ⟨rfl, counted.print t⟩

theorem dumpTokens (h : Abreast base base' k k' known s s') (rows : List Text) :
    Abreast base base' k k' known (dumpTokens undisturbed k rows s) (dumpTokens undisturbed k' rows s') := by
  induction rows generalizing s s' with
  | nil => exact h
  | cons row rows ih => exact ih (h.writeFrom row).2

theorem relates (base base' : Session) (k k' : Nat) (known : Text → Prop) (debug : Bool) (p : Program) :
    (host undisturbed k debug).Relates (host undisturbed k' debug) p Eq
      (Abreast base base' k k' known) where
  write line := by
    rintro m _ s s' rfl h
    exact (h.machine m).writeFrom line
  trace i := by
    rintro m _ s s' rfl h
    obtain ⟨i, i', found, found', kin⟩ := h.interpreters
    unfold host
    dsimp only
    split
    · rw [found, found']
      dsimp only
      rw [← kin.err]
      exact h.complain _ _
    · exact h

theorem runProgram (h : Abreast base base' k k' (· = file) s s') {p : Program}
    (compiled : compile file source = .ok p) :
    Abreast base base' k k' (· = file) (s.runProgram undisturbed k p).2 (s'.runProgram undisturbed k' p).2 := by
  obtain ⟨i, i', found, found', kin⟩ := h.interpreters
  unfold Session.runProgram
  rw [found, found']
  dsimp only
  rw [← kin.options, ← h.fuel]
  have ends := Machine.run_related (Machine.bisimulation_eq p.chunk)
    (relates base base' k k' (· = file) i.options.debug p) s.fuel (kin.machine.load p) h
  have place {e : RuntimeError} := @place_of_failed_unrefused s k file source p h.unrefused compiled
    i.options.debug s.fuel i.machine e
  generalize i.machine.run (host undisturbed k i.options.debug) s.fuel p s = r at ends place ⊢
  generalize i'.machine.run (host undisturbed k' i.options.debug) s.fuel p s' = r' at ends ⊢
  obtain ⟨ending, m, t⟩ := r
  obtain ⟨_, _, t'⟩ := r'
  obtain ⟨rfl, rfl, after⟩ := ends
  have stored := after.machine m
  cases ending with
  | finished | unfinished => exact stored
  | failed e => exact (stored.failWith (.runtime e)).report (place rfl)

theorem runInput (h : Abreast base base' k k' (· = file) s s') (printTokens : Bool) (source : Text) :
    Abreast base base' k k' (· = file) (s.runInput undisturbed k printTokens file source).2
      (s'.runInput undisturbed k' printTokens file source).2 := by
  unfold Session.runInput
  dsimp only
  have dumped : Abreast base base' k k' (· = file)
      (if printTokens then Session.dumpTokens undisturbed k (TokenDump.rows file source) s else s)
      (if printTokens then Session.dumpTokens undisturbed k' (TokenDump.rows file source) s' else s') := by
    split
    · exact h.dumpTokens _
    · exact h
  split
  · next ds faulty =>
    exact (dumped.failWith _).reports fun d mem => (stands_of_faulty faulty d mem).place
  · next p compiled => exact dumped.runProgram compiled

/-- An input comes to the same on both interpreters. From when it is accepted, both know its source. -/
theorem interpret (h : Abreast base base' k k' known s s') (idle : s.Has k (·.busy = false))
    (file source : Text) : Abreast base base' k k' noFile (s.interpret undisturbed k file source).2
      (s'.interpret undisturbed k' file source).2 := by
  obtain ⟨i, i', found, found', kin⟩ := h.interpreters
  obtain ⟨j, same, idle⟩ := idle
  obtain rfl : i = j := Option.some.inj (found.symm.trans same)
  unfold Session.interpret
  rw [found, found']
  dsimp only
  rw [← kin.busy, ← kin.options, idle]
  have accepted : Abreast base base' k k' (· = file) (s.modify k (·.accept file source))
      (s'.modify k' (·.accept file source)) := h.modify fun kin => kin.accept file source
  have ran := accepted.runInput i.options.printTokens source
  exact ran.modify fun kin => { kin.forget with busy := rfl }

end Abreast

end Session

end StackScript
