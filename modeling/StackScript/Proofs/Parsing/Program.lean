import StackScript.Compiler.Basic
import StackScript.Proofs.Parsing.Recognition

/-! Compilation of a token list is compilation along the tree that the list derives. Of
the trees that an ambiguous grammar leaves, the one with the longest conditions is meant,
and there is at most one program. -/

namespace StackScript

open Build Grammar

/-- The tokens up to the end of the text are those of the declarations, read with the
longest conditions. -/
def Grammar.Derives (tokens : List Token) (ds : List Decl) : Prop :=
  Grammar.Program (tokens.takeWhile (·.kind ≠ .eof)) ds ∧ greedyAll ds

theorem Grammar.Running.takeWhile_append {ts : List Token} (h : Running ts) {closing : Token}
    (kind : closing.kind = .eof) (rest : List Token) :
    (ts ++ closing :: rest).takeWhile (·.kind ≠ .eof) = ts := by
  rw [List.takeWhile_append_of_pos (by simpa [Running] using h), List.takeWhile_cons_of_neg
    (by simp [kind]), List.append_nil]

theorem Grammar.running_takeWhile (tokens : List Token) :
    Running (tokens.takeWhile (·.kind ≠ .eof)) := by
  intro t mem
  simpa using List.all_eq_true.1 List.all_takeWhile t mem

theorem withEnd_eq_append (file : Text) (tokens : List Token) :
    ∃ closing rest, withEnd file tokens = tokens.takeWhile (·.kind ≠ .eof) ++ closing :: rest ∧
      closing.kind = .eof := by
  induction tokens with
  | nil => exact ⟨_, _, rfl, rfl⟩
  | cons t us ih =>
    by_cases kind : t.kind = .eof
    · rw [List.takeWhile_cons_of_neg (by simp [kind]), withEnd, List.getLast?_cons]
      dsimp only
      split
      · exact ⟨t, us, rfl, kind⟩
      · exact ⟨t, _, rfl, kind⟩
    · obtain ⟨closing, rest, split, kind'⟩ := ih
      refine ⟨closing, rest, ?_, kind'⟩
      rw [List.takeWhile_cons_of_pos (by simpa using kind), List.cons_append, ← split]
      cases us with
      | nil => simp [withEnd, kind]
      | cons u us =>
        simp only [withEnd, List.getLast?_cons_cons]
        rw [List.getLast?_cons]
        dsimp only
        split <;> rfl

theorem Draft.start_tokens (file : Text) (tokens : List Token) :
    (Draft.start file tokens).tokens = withEnd file tokens := by
  obtain ⟨closing, rest, split, _⟩ := withEnd_eq_append file tokens
  unfold Draft.start
  split
  · next h => rw [h]; rfl
  · next h => simp [h] at split

theorem Draft.exists_start (file : Text) (tokens : List Token) : ∃ t ts, Draft.start file tokens =
    { previous := ⟨.other [], [], {}⟩, current := t, upcoming := ts } := by
  unfold Draft.start
  split <;> exact ⟨_, _, rfl⟩

theorem Draft.start_clean (file : Text) (tokens : List Token) :
    (Draft.start file tokens).faults = [] ∧ (Draft.start file tokens).recovering = false := by
  obtain ⟨_, _, fresh⟩ := exists_start file tokens
  rw [fresh]
  exact ⟨rfl, rfl⟩

theorem Draft.start_blank (file : Text) (tokens : List Token) :
    (Draft.start file tokens).chunk = {} ∧ (Draft.start file tokens).spans = #[] ∧
      (Draft.start file tokens).scope = {} ∧ (Draft.start file tokens).names = ∅ := by
  obtain ⟨_, _, fresh⟩ := exists_start file tokens
  rw [fresh]
  exact ⟨rfl, rfl, rfl, rfl⟩

theorem Draft.start_ended (file : Text) (tokens : List Token) : (Draft.start file tokens).Ended := by
  obtain ⟨closing, rest, split, kind⟩ := withEnd_eq_append file tokens
  rw [Ended, start_tokens, split, running_append, running_cons]
  exact fun h => h.2.1 kind

theorem Blames.of_text (fuel : Nat) : Blames (text fuel) :=
  have blames := of_expression fuel .assignment
  of_declarations (of_declaration blames (of_statement blames fuel)) fuel

theorem Grammar.Program.agrees {ts rest : List Token} {ds : List Decl} {closing : Token} {d : Draft}
    {fuel : Nat} (h : Grammar.Program ts ds) (greedy : greedyAll ds) (kind : closing.kind = .eof)
    (enough : ts.length < fuel) (sound : d.Sound) (tokens : d.tokens = ts ++ closing :: rest) :
    Agrees ((text fuel).run d) ((do buildAll ds; advance : Build Unit).run d) := by
  have blames := Blames.of_expression fuel .assignment
  have reads := ReadsAll.of_declarations
    (Blames.of_declaration blames (Blames.of_statement blames fuel)) kind
  have short : ts.length ≤ fuel := by omega
  have agrees := h.parses greedy short reads short enough sound tokens
  exact agrees

theorem text_derives {fuel : Nat} {d d' : Draft} (ended : d.Ended) (sound : d.Sound)
    (run : (text fuel).run d = .ok () d') (clean : d'.faults = []) : ∃ ds, Derives d.tokens ds := by
  have reads := expression_derives fuel .assignment (by decide)
  have blames := Blames.of_expression fuel .assignment
  have blames' := Blames.of_statement blames fuel
  obtain ⟨ts, ds, closing, rest, tokens, derived, greedy, kind⟩ :=
    declarations_derives (declaration_derives reads blames (statement_derives reads blames fuel)
      blames') (Blames.of_declaration blames blames') ended sound run clean
  refine ⟨ds, ?_, greedy⟩
  rwa [tokens, derived.running.takeWhile_append kind]

def Draft.program (d : Draft) (file : Text) : Program :=
  ⟨file, (d.advance.emit .finish).chunk, d.advance.spans⟩

theorem Draft.finish_of_ok {d d' : Draft}
    (run : (text (d.upcoming.length + 2)).run d = .ok () d') : d.finish = d'.emit .finish := by
  have parsed : text _ d = .ok () d' := run
  simp only [Draft.finish, parsed]

theorem Draft.finish_faults {d : Draft} (h : Faulty ((text (d.upcoming.length + 2)).run d)) :
    d.finish.faults ≠ [] := by
  cases run : (text (d.upcoming.length + 2)).run d with
  | ok a d' =>
    have parsed : text _ d = .ok a d' := run
    rw [run] at h
    simp only [Draft.finish, parsed]
    exact h
  | error e d' =>
    have parsed : text _ d = .error e d' := run
    rw [run] at h
    simp only [Draft.finish, parsed]
    exact h

theorem compileTokens_of_clean {file : Text} {tokens : List Token}
    (h : (Draft.start file tokens).finish.faults = []) :
    compileTokens file tokens = .ok ⟨file, (Draft.start file tokens).finish.chunk,
      (Draft.start file tokens).finish.spans⟩ := by
  simp only [compileTokens, h]

theorem compileTokens_of_faults {file : Text} {tokens : List Token}
    (h : (Draft.start file tokens).finish.faults ≠ []) :
    ∃ faults, compileTokens file tokens = .error faults := by
  simp only [compileTokens]
  exact ⟨_, rfl⟩

theorem Grammar.Derives.compiles_along {tokens : List Token} {ds : List Decl} (h : Derives tokens ds)
    (file : Text) :
    match (buildAll ds).run (Draft.start file tokens) with
    | .ok _ d => compileTokens file tokens = .ok (d.program file)
    | .error _ _ => ∃ faults, compileTokens file tokens = .error faults := by
  obtain ⟨closing, rest, split, kind⟩ := withEnd_eq_append file tokens
  have start := (Draft.start_tokens file tokens).trans split
  obtain ⟨clean, fresh⟩ := Draft.start_clean file tokens
  have sound : (Draft.start file tokens).Sound := by simp [Draft.Sound, fresh]
  have size := congrArg List.length start
  simp only [Draft.tokens, List.length_cons, List.length_append] at size
  have agrees := @Program.agrees _ _ _ _ _ ((Draft.start file tokens).upcoming.length + 2) h.1 h.2
    kind (by omega) sound start
  cases run : (buildAll ds).run (Draft.start file tokens) with
  | error e d =>
    rw [EStateM.run_bind, run] at agrees
    exact compileTokens_of_faults (Draft.finish_faults agrees)
  | ok a d =>
    rw [EStateM.run_bind, run] at agrees
    have finish := Draft.finish_of_ok agrees
    obtain ⟨_, faults, _⟩ := h.1.takes start (List.cons_ne_nil _ _) run
    have compiled := @compileTokens_of_clean file tokens (by
      rw [finish]
      exact d.advance_faults.1.trans (faults.trans clean))
    rw [finish] at compiled
    exact compiled

theorem exists_derives {file : Text} {tokens : List Token} {p : Program}
    (h : compileTokens file tokens = .ok p) : ∃ ds, Derives tokens ds := by
  obtain ⟨closing, rest, split, kind⟩ := withEnd_eq_append file tokens
  have start := (Draft.start_tokens file tokens).trans split
  obtain ⟨clean, fresh⟩ := Draft.start_clean file tokens
  have sound : (Draft.start file tokens).Sound := by simp [Draft.Sound, fresh]
  have faults : (Draft.start file tokens).finish.faults = [] := by
    apply Classical.not_not.1
    intro faults
    obtain ⟨_, error⟩ := compileTokens_of_faults faults
    rw [error] at h
    cases h
  have blames := Blames.of_text ((Draft.start file tokens).upcoming.length + 2) sound
  cases run : (text ((Draft.start file tokens).upcoming.length + 2)).run (Draft.start file tokens) with
  | error e d =>
    rw [run] at blames
    exact absurd faults (Draft.finish_faults (by rw [run]; exact blames))
  | ok a d =>
    rw [Draft.finish_of_ok run] at faults
    obtain ⟨ds, derived, greedy⟩ := text_derives (Draft.start_ended file tokens) sound run faults
    refine ⟨ds, ?_, greedy⟩
    rwa [start, (running_takeWhile tokens).takeWhile_append kind] at derived

theorem compileTokens_eq_ok {file : Text} {tokens : List Token} {p : Program} :
    compileTokens file tokens = .ok p ↔ ∃ ds d, Derives tokens ds ∧
      (buildAll ds).run (Draft.start file tokens) = .ok () d ∧ p = d.program file := by
  constructor
  · intro h
    obtain ⟨ds, derived⟩ := exists_derives h
    have along := derived.compiles_along file
    cases run : (buildAll ds).run (Draft.start file tokens) with
    | ok a d =>
      rw [run] at along
      rw [h] at along
      exact ⟨ds, d, derived, run, Except.ok.inj along⟩
    | error e d =>
      rw [run] at along
      obtain ⟨_, error⟩ := along
      rw [h] at error
      cases error
  · rintro ⟨ds, d, derived, run, rfl⟩
    have along := derived.compiles_along file
    rwa [run] at along

end StackScript
