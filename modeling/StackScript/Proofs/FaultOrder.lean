import StackScript.Proofs.Parsing.Journal

/-! Diagnostics are one for each declaration that was given up, in the order of the source. Each
names a token that had been read or was next when it was recorded, and each declaration that is
given up has read a token that no other one answers for. -/

namespace StackScript

open Build Grammar

theorem Draft.report_of_quiet {d : Draft} (quiet : d.recovering = false) (t : Token)
    (fault : SyntaxFault) : d.report t fault =
      { d with recovering := true, faults := .atSpan t.span fault.message :: d.faults } := by
  rw [report, quiet]
  rfl

theorem Draft.report_leaveBlock (d : Draft) (t : Token) (fault : SyntaxFault) :
    (d.report t fault).leaveBlock = d.leaveBlock.report t fault := by
  have pops (n : Nat) (d : Draft) : emitPops n (d.report t fault) = (emitPops n d).report t fault := by
    induction n generalizing d with
    | zero => rfl
    | succ n ih =>
      have emit : (d.report t fault).emit .pop = (d.emit .pop).report t fault := by
        unfold report
        cases recovering : d.recovering with
        | true => simp [Draft.emit, Draft.write, recovering]
        | false => simp [Draft.emit, Draft.write, Draft.line, recovering]
      rw [emitPops, emit, ih]
      rfl
  have left : { d.report t fault with scope := (d.report t fault).scope.leave } =
      Draft.report { d with scope := d.scope.leave } t fault := by
    unfold report
    cases recovering : d.recovering with
    | true => simp [recovering]
    | false => simp
  rw [leaveBlock, left, d.report_scope, pops]
  rfl

/-- The faults, the last one first, stand at tokens of the list: the last one not beyond a position,
and each one not beyond the one after it. -/
inductive Anchored (all : List Token) : (reach : Nat) → List Diagnostic → Prop where
  | nil {reach : Nat} : Anchored all reach []
  | cons {reach p : Nat} {t : Token} {fault : SyntaxFault} {faults : List Diagnostic} :
      all[p]? = some t → p ≤ reach → Anchored all p faults →
      Anchored all reach (.atSpan t.span fault.message :: faults)

theorem Anchored.mono {all : List Token} {reach reach' : Nat} {faults : List Diagnostic}
    (h : Anchored all reach faults) (le : reach ≤ reach') : Anchored all reach' faults := by
  cases h with
  | nil => exact .nil
  | cons found within rest => exact .cons found (Nat.le_trans within le) rest

structure Anchor where
  position : Nat
  token : Token
  fault : SyntaxFault

def Anchor.diagnostic (a : Anchor) : Diagnostic := .atSpan a.token.span a.fault.message

theorem Anchored.exists_anchors {all : List Token} {reach : Nat} {faults : List Diagnostic}
    (h : Anchored all reach faults) :
    ∃ anchors : List Anchor, faults = anchors.map Anchor.diagnostic ∧
      (∀ a ∈ anchors, all[a.position]? = some a.token ∧ a.position ≤ reach) ∧
      anchors.Pairwise (fun a b => b.position ≤ a.position) := by
  induction h with
  | nil => exact ⟨[], rfl, by simp, .nil⟩
  | @cons reach p t fault faults found within rest ih =>
    obtain ⟨anchors, rfl, stand, sorted⟩ := ih
    refine ⟨⟨p, t, fault⟩ :: anchors, rfl, ?_, .cons (fun a mem => (stand a mem).2) sorted⟩
    refine List.forall_mem_cons.2 ⟨⟨found, within⟩, fun a mem => ?_⟩
    exact ⟨(stand a mem).1, Nat.le_trans (stand a mem).2 within⟩

/-- The declarations of a journal that were given up. -/
def failures (j : List Activation) : Nat := j.countP (·.givenUp)

theorem failures_append (j : List Activation) (a : Activation) :
    failures (j ++ [a]) = failures j + a.givenUp.toNat := by
  rw [failures, List.countP_append, List.countP_singleton]
  cases a.givenUp <;> rfl

/-- How a draft stands that has read some tokens of a list: what is recorded answers for the
declarations that were given up, for the one that is being given up, and for open blocks it leaves a
token each. -/
structure Standing (all : List Token) (j : List Activation) (recovering : Bool) (reach spare : Nat)
    (read : List Token) (d : Draft) : Prop where
  split : all = read ++ d.tokens
  running : Running read
  mode : d.recovering = recovering
  starts : ∀ a ∈ j, a.before.recovering = false
  count : d.faults.length = failures j + recovering.toNat
  anchored : Anchored all reach d.faults
  bound : d.faults.length + d.scope.depth + spare ≤ read.length

namespace Standing

variable {all read : List Token} {j : List Activation} {r : Bool} {reach reach' spare spare' : Nat}
  {d d' : Draft}

theorem weaken (h : Standing all j r reach spare read d) (le : reach ≤ reach') (less : spare' ≤ spare) :
    Standing all j r reach' spare' read d :=
  ⟨h.split, h.running, h.mode, h.starts, h.count, h.anchored.mono le, by have := h.bound; omega⟩

theorem of_same (h : Standing all j r reach spare read d) (same : d.SameReading d')
    (depth : d'.scope.depth = d.scope.depth) : Standing all j r reach spare read d' := by
  refine ⟨?_, h.running, ?_, h.starts, ?_, ?_, ?_⟩
  · rw [same.tokens]
    exact h.split
  · exact same.recovering.trans h.mode
  · rw [same.faults]
    exact h.count
  · rw [same.faults]
    exact h.anchored
  · rw [same.faults, depth]
    exact h.bound

theorem current (h : Standing all j r reach spare read d) : all[read.length]? = some d.current := by
  rw [h.split, List.getElem?_append_right (Nat.le_refl _), Nat.sub_self]
  rfl

theorem ended (h : Standing all j r reach spare read d) (closed : ¬ Running all) : d.Ended := by
  intro more
  exact closed (by rw [h.split, running_append]; exact ⟨h.running, more⟩)

theorem advance (h : Standing all j r reach spare read d) (closed : ¬ Running all)
    (running : d.current.kind ≠ .eof) :
    Standing all j r reach (spare + 1) (read ++ [d.current]) d.advance := by
  obtain ⟨split, _⟩ := (h.ended closed).advance running
  obtain ⟨faults, recovering⟩ := d.advance_faults
  refine ⟨?_, ?_, recovering.trans h.mode, h.starts, ?_, ?_, ?_⟩
  · rw [List.append_assoc, List.singleton_append, ← split]
    exact h.split
  · rw [running_append, running_cons]
    exact ⟨h.running, running, by simp [Running]⟩
  · rw [faults]
    exact h.count
  · rw [faults]
    exact h.anchored
  · have := h.bound
    rw [faults, d.advance_scope, List.length_append, List.length_singleton]
    omega

theorem report (h : Standing all j false reach (spare + 1) read d) {p : Nat} {t : Token}
    (found : all[p]? = some t) (behind : Anchored all p d.faults) (le : p ≤ reach')
    (fault : SyntaxFault) : Standing all j true reach' spare read (d.report t fault) := by
  have count := h.count
  have bound := h.bound
  rw [Draft.report_of_quiet h.mode]
  refine ⟨h.split, h.running, rfl, h.starts, ?_, .cons found le behind, ?_⟩
  · simpa using count
  · dsimp only
    rw [List.length_cons]
    omega

theorem blamed (h : Standing all j false reach (spare + 1) read d) {p : Nat} {t : Token}
    (found : all[p]? = some t) (behind : Anchored all p d.faults)
    (place : p + d.tokens.length ≤ all.length) (fault : SyntaxFault) :
    Standing all j true read.length spare read (d.report t fault) := by
  rw [h.split, List.length_append] at place
  exact h.report found behind (by omega) fault

/-- A token that nothing begins with is blamed when it is read, and so is the end while there is room
for it. -/
theorem refused (h : Standing all j false read.length 0 read d) (closed : ¬ Running all)
    (room : d.current.kind = .eof → d.faults.length + d.scope.depth < read.length)
    (fault : SyntaxFault) :
    ∃ read', Standing all j true read'.length 0 read' (d.advance.report d.current fault) := by
  have found := h.current
  have behind : Anchored all read.length d.advance.faults := by
    rw [d.advance_faults.1]
    exact h.anchored
  by_cases eof : d.current.kind = .eof
  · have still : Standing all j false read.length 1 read d.advance := by
      rw [Draft.advance_of_eof eof]
      exact ⟨h.split, h.running, h.mode, h.starts, h.count, h.anchored, room eof⟩
    exact ⟨read, still.report found behind (Nat.le_refl _) fault⟩
  · refine ⟨_, (h.advance closed eof).report found behind ?_ fault⟩
    rw [List.length_append]
    exact Nat.le_add_right _ _

end Standing

def standing (all : List Token) (j : List Activation) : Alone where
  begins d := ∃ read, Standing all j false read.length 0 read d ∧
    (d.current.kind = .eof → d.faults.length + d.scope.depth < read.length)
  runs d := ∃ read, Standing all j false read.length 1 (read ++ [d.previous]) d
  lost d := ∃ read, Standing all j true read.length 0 read d
  known d t := ∃ p, all[p]? = some t ∧ Anchored all p d.faults ∧ p + d.tokens.length ≤ all.length

def faultOrder (all : List Token) : Survey where
  pairing j := (standing all j).pairing
  between j d e := d = e ∧ ∃ read, Standing all j false read.length 0 read d

section

variable {all : List Token} (closed : ¬ Running all) (j : List Activation)

theorem Standing.read {read : List Token} {spare : Nat} {d : Draft} {r : Bool} {reach : Nat}
    (h : Standing all j r reach spare read d) (closed : ¬ Running all)
    (running : d.current.kind ≠ .eof) :
    Standing all j r reach (spare + 1) (read ++ [d.advance.previous]) d.advance := by
  rw [d.advance_previous]
  exact h.advance closed running

include closed

theorem standing_laws : (standing all j).Laws where
  ended := by
    rintro d ⟨read, standing⟩
    exact standing.ended closed
  begins := by
    rintro d ⟨read, standing⟩
    have bound := standing.bound
    refine ⟨_, standing.weaken ?_ (Nat.zero_le 1), fun _ => bound⟩
    rw [List.length_append]
    exact Nat.le_add_right _ _
  current := by
    rintro d ⟨read, standing, _⟩
    exact ⟨_, standing.current, standing.anchored,
      Nat.le_of_eq (by rw [standing.split, List.length_append])⟩
  previous := by
    rintro d ⟨read, standing⟩
    refine ⟨read.length, ?_, standing.anchored, ?_⟩
    · rw [standing.split, List.append_assoc, List.getElem?_append_right (Nat.le_refl _), Nat.sub_self]
      rfl
    · rw [standing.split, List.length_append, List.length_append]
      omega
  keep := by
    rintro d d' t ⟨p, found, anchored, le⟩ leads
    have count := leads.left.count
    exact ⟨p, found, leads.faults ▸ anchored, by omega⟩
  read := by
    rintro d ⟨read, standing, _⟩ running
    exact ⟨read, standing.read j closed running⟩
  refuse := by
    rintro d fault ⟨read, standing, room⟩
    exact standing.refused closed room fault
  fail := by
    rintro d t fault ⟨read, standing⟩ ⟨p, found, anchored, le⟩
    exact ⟨_, standing.blamed found anchored le fault⟩
  write := by
    rintro d d' ⟨read, standing⟩ same depth
    exact ⟨read, by rw [same.previous]; exact standing.of_same same depth⟩
  write_lost := by
    rintro d d' ⟨read, standing⟩ same depth
    exact ⟨read, standing.of_same same depth⟩

omit closed in
theorem Standing.entered {read more : List Token} {r : Bool} {reach spare : Nat} {d d' : Draft}
    (h : Standing all j r reach spare read d) (le : reach ≤ read.length) {a : Activation}
    (quiet : a.before.recovering = false) (mode : a.givenUp = r)
    (split : d.tokens = more ++ d'.tokens) (running : Running more)
    (still : d'.recovering = false ∧ d'.faults = d.faults ∧ d'.scope = d.scope) :
    Standing all (j ++ [a]) false (read ++ more).length 0 (read ++ more) d' := by
  obtain ⟨recovering, faults, scope⟩ := still
  have count := h.count
  have bound := h.bound
  refine ⟨?_, (running_append _ _).2 ⟨h.running, running⟩, recovering, ?_, ?_, ?_, ?_⟩
  · rw [List.append_assoc, ← split]
    exact h.split
  · rw [List.forall_mem_append]
    exact ⟨h.starts, by simpa using quiet⟩
  · rw [faults, failures_append, mode]
    exact count
  · rw [faults, List.length_append]
    exact h.anchored.mono (by omega)
  · rw [faults, scope, List.length_append]
    omega

theorem faultOrder_laws : (faultOrder all).Laws where
  pairing j := (standing all j).laws (standing_laws closed j)
  offset _ _ := rfl
  finish := by
    rintro j j' d d' _ _ ⟨rfl, _, before, _⟩ ⟨rfl, read, standing⟩
    refine ⟨rfl, _, standing.entered j' ?_ before.mode rfl (List.nil_append _).symm
      (by simp [Running]) ⟨standing.mode, rfl, rfl⟩⟩
    rw [List.length_append]
    exact Nat.le_add_right _ _
  recover := by
    rintro j j' d d' _ _ ⟨rfl, _, before, _⟩ ⟨rfl, read, standing⟩
    obtain ⟨more, running, split⟩ :=
      Draft.skip_tokens (0 < d'.scope.depth) d'.previous d'.current d'.upcoming
    exact ⟨rfl, _, standing.entered j' (Nat.le_refl _) before.mode rfl split running
      ⟨rfl, rfl, rfl⟩⟩

omit closed in
theorem Standing.leave {read : List Token} {r : Bool} {reach spare : Nat} {d : Draft}
    (h : Standing all j r reach spare read d) (inner : 0 < d.scope.depth) :
    Standing all j r reach (spare + 1) read d.leaveBlock := by
  have same := d.leaveBlock_sameReading
  have depth := d.leaveBlock_depth
  have bound := h.bound
  refine ⟨?_, h.running, same.recovering.trans h.mode, h.starts, ?_, ?_, ?_⟩
  · rw [same.tokens]
    exact h.split
  · rw [same.faults]
    exact h.count
  · rw [same.faults]
    exact h.anchored
  · rw [same.faults, depth]
    omega

theorem faultOrder_nested : (faultOrder all).Nested where
  kind := by
    rintro j d _ ⟨rfl, _⟩
    rfl
  again := by
    rintro j d _ ⟨rfl, read, standing⟩ running
    exact ⟨rfl, read, standing, fun ends => absurd ends running⟩
  enter := by
    rintro j d _ ⟨rfl, read, standing, _⟩ kind
    have further := standing.advance closed (by simp [kind])
    have bound := further.bound
    refine ⟨rfl, _, further.split, further.running, further.mode, further.starts, further.count,
      further.anchored.mono ?_, bound⟩
    rw [List.length_append]
    exact Nat.le_add_right _ _
  close := by
    rintro j d _ ⟨rfl, read, standing⟩ inner kind
    have left := (standing.advance closed (by simp [kind])).leave j (by rwa [d.advance_scope])
    refine ⟨rfl, read, ?_⟩
    rw [d.advance.leaveBlock_sameReading.previous, d.advance_previous]
    exact left.weaken (Nat.le_refl _) (Nat.le_succ 1)
  unclosed := by
    rintro j d _ fault ⟨rfl, read, standing⟩ inner ends
    have left := standing.leave j inner
    refine ⟨rfl, read, ?_⟩
    rw [d.report_leaveBlock]
    refine left.report standing.current ?_ (Nat.le_refl _) fault
    rw [d.leaveBlock_sameReading.faults]
    exact standing.anchored

end

def diagnostics (file : Text) (tokens : List Token) : List Diagnostic :=
  match compileTokens file tokens with
  | .ok _ => []
  | .error faults => faults

theorem diagnostics_eq (file : Text) (tokens : List Token) :
    diagnostics file tokens = (Draft.start file tokens).finish.faults.reverse := by
  unfold diagnostics compileTokens
  dsimp only
  split
  · next accepted =>
    split at accepted
    · next none => rw [none]; rfl
    · cases accepted
  · next rejected =>
    split at rejected
    · cases rejected
    · exact (Except.error.inj rejected).symm

theorem compileTokens_iff (file : Text) (tokens : List Token) :
    (∃ p, compileTokens file tokens = .ok p) ↔ diagnostics file tokens = [] := by
  rw [diagnostics_eq, List.reverse_eq_nil_iff]
  constructor
  · rintro ⟨p, accepted⟩
    refine Classical.byContradiction fun some => ?_
    obtain ⟨faults, rejected⟩ := compileTokens_of_faults some
    rw [accepted] at rejected
    cases rejected
  · exact fun none => ⟨_, compileTokens_of_clean none⟩

theorem countP_withEnd (file : Text) (tokens : List Token) :
    (withEnd file tokens).countP (·.kind ≠ .eof) = tokens.countP (·.kind ≠ .eof) := by
  unfold withEnd
  split
  · split
    · rfl
    · simp
  · next none =>
    rw [List.getLast?_eq_none_iff.1 none]
    rfl

def fuelFor (file : Text) (tokens : List Token) : Nat :=
  (Draft.start file tokens).upcoming.length + 2

theorem start_left (file : Text) (tokens : List Token) :
    (Draft.start file tokens).Left (fuelFor file tokens) :=
  ⟨Draft.start_ended file tokens, Nat.le_succ _⟩

theorem start_empty (file : Text) (tokens : List Token) :
    (Draft.start file tokens).scope = {} ∧ (Draft.start file tokens).chunk = {} := by
  obtain ⟨chunk, _, scope, _⟩ := Draft.start_blank file tokens
  exact ⟨scope, chunk⟩

theorem withEnd_closed (file : Text) (tokens : List Token) : ¬ Running (withEnd file tokens) := by
  rw [← Draft.start_tokens]
  exact Draft.start_ended file tokens

theorem diagnostics_of_run {file : Text} {tokens : List Token} {d : Draft}
    (run : (text (fuelFor file tokens)).run (Draft.start file tokens) = .ok () d) :
    diagnostics file tokens = d.faults.reverse := by
  rw [diagnostics_eq, Draft.finish_of_ok run]
  rfl

/-- A compilation and the one that keeps a journal end well, with the same draft. -/
theorem exists_run_text (file : Text) (tokens : List Token) {σ : Type} [Carrier σ] {s : σ}
    (begun : Carrier.draft s = Draft.start file tokens) :
    ∃ s' d j read, (text (fuelFor file tokens) : Compiling σ Unit).run s = .ok () s' ∧
      Carrier.draft s' = d.advance ∧
      (Watched.text (fuelFor file tokens)).run ⟨Draft.start file tokens, []⟩ =
        .ok () ⟨d.advance, j⟩ ∧
      Standing (withEnd file tokens) j false read.length 0 read d := by
  obtain ⟨clean, fresh⟩ := Draft.start_clean file tokens
  have depth : (Draft.start file tokens).scope.depth = 0 :=
    congrArg Scope.depth (start_empty file tokens).1
  have start : (faultOrder (withEnd file tokens)).between [] (Carrier.draft s)
      (Draft.start file tokens) := by
    rw [begun]
    refine ⟨rfl, [], (Draft.start_tokens file tokens).symm, by simp [Running], fresh, by simp, ?_, ?_, ?_⟩
    · simp [clean, failures]
    · rw [clean]
      exact .nil
    · simp [clean, depth]
  have left := start_left file tokens
  have closed := withEnd_closed file tokens
  obtain ⟨_, _, s', ⟨_, j⟩, run, watched, d, _, _, ⟨rfl, read, standing⟩, now, rfl⟩ :=
    (Survey.text_ends (faultOrder_laws closed) (faultOrder_nested closed)
      (w := ⟨Draft.start file tokens, []⟩) (begun ▸ left) left start).exists_ok
  exact ⟨s', d, j, read, run, now, watched, standing⟩

theorem text_stands (file : Text) (tokens : List Token) :
    ∃ d j read, (text (fuelFor file tokens)).run (Draft.start file tokens) = .ok () d.advance ∧
      (Watched.text (fuelFor file tokens)).run ⟨Draft.start file tokens, []⟩ =
        .ok () ⟨d.advance, j⟩ ∧
      Standing (withEnd file tokens) j false read.length 0 read d := by
  obtain ⟨_, d, j, read, run, rfl, watched, standing⟩ :=
    exists_run_text file tokens (s := Draft.start file tokens) rfl
  exact ⟨d, j, read, run, watched, standing⟩

theorem run_text_eq {file : Text} {tokens : List Token} {σ : Type} [Carrier σ] {s s' : σ}
    (begun : Carrier.draft s = Draft.start file tokens)
    (run : (text (fuelFor file tokens) : Compiling σ Unit).run s = .ok () s') :
    (text (fuelFor file tokens)).run (Draft.start file tokens) = .ok () (Carrier.draft s') := by
  obtain ⟨d, _, _, run', watched, _⟩ := text_stands file tokens
  obtain ⟨_, d', _, _, again, now, watched', _⟩ := exists_run_text file tokens begun
  rw [watched] at watched'
  cases run.symm.trans again
  rw [run', now, (Watch.mk.inj (EStateM.Result.ok.inj watched').2).1]

theorem diagnostics_of_watched {file : Text} {tokens : List Token} {w : Watch}
    (run : (Watched.text (fuelFor file tokens)).run ⟨Draft.start file tokens, []⟩ = .ok () w) :
    diagnostics file tokens = w.draft.faults.reverse := by
  obtain ⟨d, j, read, run', watched, _⟩ := text_stands file tokens
  rw [watched] at run
  obtain ⟨_, rfl⟩ := EStateM.Result.ok.inj run
  exact diagnostics_of_run run'

theorem one_diagnostic_for_each_declaration_given_up (file : Text) (tokens : List Token) :
    ∃ w, (Watched.text (fuelFor file tokens)).run ⟨Draft.start file tokens, []⟩ = .ok () w ∧
      (text (fuelFor file tokens)).run (Draft.start file tokens) = .ok () w.draft ∧
      ((∃ p, compileTokens file tokens = .ok p) ↔ w.draft.faults = []) ∧
      diagnostics file tokens = w.draft.faults.reverse ∧
      (diagnostics file tokens).length = failures w.journal ∧
      (∀ a ∈ w.journal, a.before.recovering = false) ∧
      (∃ anchors : List Anchor, diagnostics file tokens = anchors.map Anchor.diagnostic ∧
        (∀ a ∈ anchors, (withEnd file tokens)[a.position]? = some a.token) ∧
        anchors.Pairwise (fun a b => a.position ≤ b.position)) ∧
      (diagnostics file tokens).length ≤ tokens.countP (·.kind ≠ .eof) := by
  obtain ⟨d, j, read, run, watched, standing⟩ := text_stands file tokens
  have found := diagnostics_of_run run
  have faults := d.advance_faults.1
  have count := standing.count
  have bound := standing.bound
  refine ⟨⟨d.advance, j⟩, watched, run, ?_, found, ?_, standing.starts, ?_, ?_⟩
  · rw [compileTokens_iff, found, List.reverse_eq_nil_iff]
  · rw [found, List.length_reverse, faults]
    exact count
  · obtain ⟨anchors, split, stand, sorted⟩ := standing.anchored.exists_anchors
    refine ⟨anchors.reverse, ?_, fun a mem => (stand a (List.mem_reverse.1 mem)).1,
      List.pairwise_reverse.2 sorted⟩
    rw [found, faults, split, List.map_reverse]
  · have all : read.countP (·.kind ≠ .eof) = read.length :=
      List.countP_eq_length.2 fun t mem => by simpa using standing.running t mem
    have split := congrArg (List.countP (·.kind ≠ .eof)) standing.split
    rw [countP_withEnd, List.countP_append, all] at split
    rw [found, List.length_reverse, faults]
    omega

end StackScript
