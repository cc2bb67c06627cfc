import StackScript.Proofs.Parsing.Expression

/-! What precedence climbing accepts derives from the grammar. The loop carries the
expression read so far with the tightest level that it is known to have; an operator
takes it as its left operand because the token after it closes that level. -/

namespace StackScript

open Build Grammar

theorem Takes.tokens_eq {α : Type} {x : Build α} {d d' : Draft} {a : α} (h : Takes [] x)
    (run : x.run d = .ok a d') : d'.tokens = d.tokens :=
  (h (List.nil_append _).symm d.tokens_ne_nil run).1

namespace Draft

/-- The end of the text is still to come. -/
def Ended (d : Draft) : Prop := ¬ Running d.tokens

theorem Ended.of_append {d d' : Draft} {ts : List Token} (h : d.Ended)
    (tokens : d.tokens = ts ++ d'.tokens) (running : Running ts) : d'.Ended := by
  intro more
  exact h (by rw [tokens, running_append]; exact ⟨running, more⟩)

theorem Ended.advance {d : Draft} (h : d.Ended) (running : d.current.kind ≠ .eof) :
    d.tokens = d.current :: d.advance.tokens ∧ d.advance.Ended := by
  have more : d.upcoming ≠ [] := by
    intro none
    exact h (by simp [tokens, none, running])
  have tokens : d.advance.tokens = d.upcoming := tokens_advance rfl running more
  have read : d.tokens = [d.current] ++ d.advance.tokens := by
    rw [tokens]
    rfl
  exact ⟨read, h.of_append read (by simp [running])⟩

end Draft

theorem Level.eq_of_rank {l l' : Level} (same : l.rank = l'.rank) : l = l' := by
  revert same
  cases l <;> cases l' <;> simp [rank]

theorem Level.rank_tighter {l l' : Level} (loose : l.rank < l'.rank) :
    l.tighter.rank = l.rank + 1 := by
  have highest : l'.rank ≤ 9 := by cases l' <;> decide
  cases l with
  | unary => exact absurd (Nat.lt_of_lt_of_le loose highest) (by decide)
  | _ => rfl

theorem Grammar.Expression.loosen {l l' : Level} {ts : List Token} {e : Expr}
    (h : Expression l ts e) (positive : 0 < l'.rank) (looser : l'.rank ≤ l.rank) :
    Expression l' ts e := by
  by_cases same : l'.rank = l.rank
  · rwa [Level.eq_of_rank same]
  · have step := Level.rank_tighter (Nat.lt_of_le_of_ne looser same)
    refine .tighter (by rintro rfl; exact absurd positive (by decide)) (h.loosen ?_ ?_)
    all_goals omega
termination_by l.rank - l'.rank

/-- The levels whose operations group to the right take a tighter left operand. -/
theorem Level.lt_of_closedBy {l : Level} {k : TokenKind} (h : l.closedBy k)
    (right : k = .question ∨ k = .kwOr ∨ k = .kwAnd) : (Level.ofOperator k).rank < l.rank := by
  rcases right with rfl | rfl | rfl
  all_goals
    revert h
    cases l <;> simp [closedBy, ofOperator, rank]

/-- The levels whose operations group to the left take an operand of their own there. -/
theorem Level.closedBy_of_le {l : Level} {k k' : TokenKind} (left : k ∈ operators l)
    (h : (Level.ofOperator k').rank ≤ l.rank) : l.closedBy k' := by
  cases l with
  | equality | comparison | term | factor => exact h
  | _ => simp [operators] at left

/-- A run that ends well has read an expression of the level, up to a token that does
not continue it. -/
def Reads (l : Level) (x : Build Unit) : Prop :=
  ∀ ⦃d d' : Draft⦄, d.Ended → x.run d = .ok () d' →
    ∃ ts e, d.tokens = ts ++ d'.tokens ∧ Expression l ts e ∧
      (Level.ofOperator d'.current.kind).rank < l.rank ∧
      (l = .assignment → d'.current.kind.isAssignment = false)

theorem Reads.ended {l : Level} {x : Build Unit} {d d' : Draft} (h : Reads l x) (ended : d.Ended)
    (run : x.run d = .ok () d') : d'.Ended := by
  obtain ⟨ts, e, tokens, derived, _⟩ := h ended run
  exact ended.of_append tokens derived.running

theorem Draft.Ended.same {d d' : Draft} (h : d.Ended) (tokens : d'.tokens = d.tokens) : d'.Ended := by
  rwa [Draft.Ended, tokens]

theorem TokenKind.isAssignment_iff (k : TokenKind) :
    k.isAssignment ↔ k = .assign ∨ k ∈ compounds := by
  cases k with
  | other label => simp [isAssignment, Opcode.ofCompound?, compounds]
  | _ => decide

theorem Draft.current_eq {d d' : Draft} (tokens : d'.tokens = d.tokens) : d'.current = d.current :=
  (List.cons.inj tokens).1

variable {self : Level → Build Unit}

theorem assigned_derives (ih : ∀ l, 0 < l.rank → Reads l (self l)) {t : Token} {d d₁ d' : Draft}
    {p : Place} (ended : d.Ended) (running : d.current.kind ≠ .eof)
    (placed : (place t).run d = .ok p d₁) (keeps : Draft → Draft)
    (same : ∀ d : Draft, (keeps d).tokens = d.tokens)
    (run : (self .assignment).run (keeps d₁.advance) = .ok () d') :
    ∃ ts e, d.tokens = d.current :: (ts ++ d'.tokens) ∧ Expression .assignment ts e ∧
      (Level.ofOperator d'.current.kind).rank < Level.assignment.rank := by
  have tokens₁ := (Takes.of_place t).tokens_eq placed
  have current := Draft.current_eq tokens₁
  obtain ⟨tokens₂, ended₂⟩ := (ended.same tokens₁).advance (by rwa [current])
  obtain ⟨ts, e, tokens₃, derived, low, _⟩ :=
    ih .assignment (by decide) (ended₂.same (same _)) run
  refine ⟨ts, e, ?_, derived, low⟩
  rw [← tokens₁, tokens₂, current, ← same, tokens₃]

/-- An operand that begins with `t` was read between two drafts. Only an assignment is
more than the tightest level. -/
def OperandRead (t : Token) (assignable : Bool) (d d' : Draft) : Prop :=
  ∃ ts e, d.tokens = ts ++ d'.tokens ∧ (Expression .unary (t :: ts) e ∨
    assignable ∧ Expression .assignment (t :: ts) e ∧
      (Level.ofOperator d'.current.kind).rank < Level.assignment.rank)

theorem variableUse_derives (ih : ∀ l, 0 < l.rank → Reads l (self l)) {assignable : Bool} {t : Token}
    (kind : t.kind = .identifier) {d d' : Draft} (ended : d.Ended)
    (run : (variableUse self assignable t).run d = .ok () d') :
    OperandRead t assignable d d' := by
  by_cases plain : assignable → d.current.kind.isAssignment = false
  · rw [run_variableUse_read self plain] at run
    obtain ⟨p, d₁, place, get⟩ := run_bind_eq_ok.1 run
    refine ⟨[], .name t, ?_, .inl (.name kind)⟩
    rw [List.nil_append, (Takes.of_emitGet p t).tokens_eq get, (Takes.of_place t).tokens_eq place]
  · obtain ⟨rfl, assignment⟩ : assignable = true ∧ d.current.kind.isAssignment = true := by
      simpa using plain
    have running : d.current.kind ≠ .eof := fun eof => by simp [eof] at assignment; contradiction
    rcases (TokenKind.isAssignment_iff _).1 assignment with op | op
    · rw [run_variableUse_assign self op] at run
      obtain ⟨p, d₁, placed, rest⟩ := run_bind_eq_ok.1 run
      change (do self .assignment; modify (p.emitSet t) : Build Unit).run d₁.advance = _ at rest
      obtain ⟨_, d₂, right, set⟩ := run_bind_eq_ok.1 rest
      obtain ⟨ts, e, tokens, derived, low⟩ :=
        assigned_derives ih ended running placed id (fun _ => rfl) right
      have tokens' := (Takes.of_emitSet p t).tokens_eq set
      refine ⟨d.current :: ts, _, ?_, .inr ⟨rfl, .assign kind op derived, ?_⟩⟩
      · rw [tokens, tokens', List.cons_append]
      · rwa [Draft.current_eq tokens']
    · rw [run_variableUse_compound self rfl op] at run
      obtain ⟨p, d₁, placed, rest⟩ := run_bind_eq_ok.1 run
      change (do
        self .assignment
        emitFor (Opcode.ofCompound? d.current.kind) d.current
        modify (p.emitSet t) : Build Unit).run (p.emitGet t d₁.advance) = _ at rest
      obtain ⟨_, d₂, right, rest⟩ := run_bind_eq_ok.1 rest
      obtain ⟨_, d₃, arithmetic, set⟩ := run_bind_eq_ok.1 rest
      obtain ⟨ts, e, tokens, derived, low⟩ :=
        assigned_derives ih ended running placed (p.emitGet t) (by cases p <;> exact fun _ => rfl) right
      have tokens' := ((Takes.of_emitSet p t).tokens_eq set).trans
        ((Takes.of_emitFor _ _).tokens_eq arithmetic)
      refine ⟨d.current :: ts, _, ?_, .inr ⟨rfl, .compound kind op derived, ?_⟩⟩
      · rw [tokens, tokens', List.cons_append]
      · rwa [Draft.current_eq tokens']

theorem operand_derives (ih : ∀ l, 0 < l.rank → Reads l (self l)) {assignable : Bool} {d d' : Draft}
    (ended : d.Ended) (run : (operand self assignable).run d = .ok () d') :
    OperandRead d.previous assignable d d' := by
  have leaf (kind : d.previous.kind ∈ literals) (run : (literal d.previous).run d = .ok () d') :
      OperandRead d.previous assignable d d' :=
    ⟨[], _, ((Takes.of_literal _).tokens_eq run).symm, .inl (.literal kind)⟩
  have prefixed (kind : d.previous.kind = .minus ∨ d.previous.kind = .bang) (op : Opcode)
      (run : (do self .unary; modify (·.emitAt op d.previous) : Build Unit).run d = .ok () d') :
      OperandRead d.previous assignable d d' := by
    obtain ⟨_, d₁, run, emit⟩ := run_bind_eq_ok.1 run
    obtain ⟨ts, e, tokens, derived, _⟩ := ih .unary (by decide) ended run
    cases emit
    exact ⟨ts, _, tokens, .inl (.unary kind derived)⟩
  simp only [operand, act_eq, EStateM.run_bind, run_previous] at run
  split at run
  · next kind =>
    obtain ⟨_, d₁, inner, rest⟩ := run_bind_eq_ok.1 run
    obtain ⟨ts, e, tokens, derived, _⟩ := ih .assignment (by decide) ended inner
    simp only [act_eq, EStateM.run_bind, run_current] at rest
    split at rest
    · next closing =>
      cases rest
      obtain ⟨tokens', _⟩ :=
        ((ih .assignment (by decide)).ended ended inner).advance (by simp [closing])
      refine ⟨ts ++ [d₁.current], _, ?_, .inl (.group kind derived closing)⟩
      rw [tokens, tokens', List.append_assoc, List.singleton_append]
    · cases rest
  · next kind => exact prefixed (.inl kind) _ run
  · next kind => exact prefixed (.inr kind) _ run
  · next kind => exact variableUse_derives ih kind ended run
  · next kind => exact leaf (by simp [kind, literals]) (by simpa only [literal, kind] using run)
  · next kind => exact leaf (by simp [kind, literals]) (by simpa only [literal, kind] using run)
  · next kind => exact leaf (by simp [kind, literals]) (by simpa only [literal, kind] using run)
  · next kind => exact leaf (by simp [kind, literals]) (by simpa only [literal, kind] using run)
  · next kind => exact leaf (by simp [kind, literals]) (by simpa only [literal, kind] using run)
  · next kind => exact leaf (by simp [kind, literals]) (by simpa only [literal, kind] using run)
  · cases run

theorem mem_operators_ofOperator {k : TokenKind} (between : 0 < (Level.ofOperator k).rank)
    (mark : k ≠ .question) (conjunctive : k ≠ .kwAnd) (disjunctive : k ≠ .kwOr) :
    k ∈ operators (Level.ofOperator k) := by
  cases k with
  | other label => simp [Level.ofOperator, Level.rank] at between
  | _ =>
    revert between mark conjunctive disjunctive
    decide

/-- An operator with a left operand that it closes makes an operation of its level. -/
theorem operation_derives (ih : ∀ l, 0 < l.rank → Reads l (self l)) {l : Level} {ts : List Token}
    {e : Expr} {d d' : Draft} (derived : Expression l ts e) (closed : l.closedBy d.previous.kind)
    (between : 0 < (Level.ofOperator d.previous.kind).rank) (ended : d.Ended)
    (run : (operation self).run d = .ok () d') :
    ∃ us e', d.tokens = us ++ d'.tokens ∧
      Expression (Level.ofOperator d.previous.kind) (ts ++ d.previous :: us) e' ∧
      (Level.ofOperator d.previous.kind).closedBy d'.current.kind := by
  simp only [operation, act_eq, EStateM.run_bind, run_previous] at run
  split at run
  · next kind =>
    have tight := Level.lt_of_closedBy closed (.inl kind)
    rw [kind] at tight ⊢
    obtain ⟨_, d₁, yes, rest⟩ := run_bind_eq_ok.1 run
    obtain ⟨_, d₂, colon, rest⟩ := run_bind_eq_ok.1 rest
    obtain ⟨_, d₃, no, emit⟩ := run_bind_eq_ok.1 rest
    have reads := ih .ternary (by decide)
    obtain ⟨us, a, tokens₁, derived₁, _⟩ := reads ended yes
    rw [act_eq, run_expect] at colon
    split at colon
    · next kind' =>
      cases colon
      obtain ⟨tokens₂, ended₂⟩ := (reads.ended ended yes).advance (by simp [kind'])
      obtain ⟨vs, b, tokens₃, derived₂, low, _⟩ := reads ended₂ no
      cases emit
      refine ⟨us ++ d₁.current :: vs, _, ?_, .conditional (derived.loosen (by decide) tight) kind
        derived₁ kind' derived₂, low⟩
      rw [tokens₁, tokens₂, tokens₃, List.append_assoc, List.cons_append]
      rfl
    · cases colon
  · next kind =>
    have tight := Level.lt_of_closedBy closed (.inr (.inr kind))
    rw [kind] at tight ⊢
    obtain ⟨exit, d₁, jump, rest⟩ := run_bind_eq_ok.1 run
    obtain ⟨_, d₂, pop, rest⟩ := run_bind_eq_ok.1 rest
    obtain ⟨_, d₃, right, patch⟩ := run_bind_eq_ok.1 rest
    have tokens₂ := ((Takes.of_emit _).tokens_eq pop).trans ((Takes.of_emitJump _).tokens_eq jump)
    obtain ⟨us, b, tokens₃, derived₁, low, _⟩ :=
      ih .and (by decide) (ended.same tokens₂) right
    have tokens₄ := (Takes.of_patchJump _).tokens_eq patch
    refine ⟨us, _, ?_, .and (derived.loosen (by decide) tight) kind derived₁, ?_⟩
    · rw [← tokens₂, tokens₃, tokens₄]
    · rwa [Draft.current_eq tokens₄]
  · next kind =>
    have tight := Level.lt_of_closedBy closed (.inr (.inl kind))
    rw [kind] at tight ⊢
    obtain ⟨otherwise, d₁, jump, rest⟩ := run_bind_eq_ok.1 run
    obtain ⟨exit, d₂, jump', rest⟩ := run_bind_eq_ok.1 rest
    obtain ⟨_, d₃, patch, rest⟩ := run_bind_eq_ok.1 rest
    obtain ⟨_, d₄, pop, rest⟩ := run_bind_eq_ok.1 rest
    obtain ⟨_, d₅, right, patch'⟩ := run_bind_eq_ok.1 rest
    have tokens₄ : d₄.tokens = d.tokens := by
      rw [(Takes.of_emit _).tokens_eq pop, (Takes.of_patchJump _).tokens_eq patch,
        (Takes.of_emitJump _).tokens_eq jump', (Takes.of_emitJump _).tokens_eq jump]
    obtain ⟨us, b, tokens₅, derived₁, low, _⟩ :=
      ih .or (by decide) (ended.same tokens₄) right
    have tokens₆ := (Takes.of_patchJump _).tokens_eq patch'
    refine ⟨us, _, ?_, .or (derived.loosen (by decide) tight) kind derived₁, ?_⟩
    · rw [← tokens₄, tokens₅, tokens₆]
    · rwa [Draft.current_eq tokens₆]
  · next mark conjunctive disjunctive =>
    have kind := mem_operators_ofOperator between mark conjunctive disjunctive
    obtain ⟨_, positive, next, _⟩ := Level.of_mem_operators kind
    obtain ⟨op, binary⟩ := exists_ofBinary kind
    rw [binary] at run
    obtain ⟨_, d₁, right, emit⟩ := run_bind_eq_ok.1 run
    obtain ⟨us, b, tokens₁, derived₁, low, _⟩ := ih _ (by omega) ended right
    have tokens₂ : d'.tokens = d₁.tokens := (Takes.of_emitFor (some op) d.previous).tokens_eq emit
    refine ⟨us, _, by rw [tokens₁, tokens₂], .binary (derived.loosen positive
      (Level.rank_le_of_closedBy closed)) kind derived₁, ?_⟩
    rw [Draft.current_eq tokens₂]
    exact Level.closedBy_of_le kind (by omega)

theorem operations_derives (ih : ∀ l, 0 < l.rank → Reads l (self l)) {L : Level}
    (positive : 0 < L.rank) {k : Nat} {l : Level} {ts : List Token} {e : Expr} {d d' : Draft}
    (derived : Expression l ts e) (looser : L.rank ≤ l.rank) (closed : l.closedBy d.current.kind)
    (ended : d.Ended) (run : (operations self L k).run d = .ok () d') :
    ∃ us e', d.tokens = us ++ d'.tokens ∧ Expression L (ts ++ us) e' ∧
      (Level.ofOperator d'.current.kind).rank < L.rank := by
  induction k generalizing l ts e d with
  | zero => cases run
  | succ k again =>
    rw [run_operations_succ] at run
    split at run
    · next high =>
      obtain ⟨_, d₁, step, rest⟩ := run_bind_eq_ok.1 run
      have running : d.current.kind ≠ .eof := by
        intro eof
        rw [eof] at high
        exact absurd positive (Nat.not_lt.2 high)
      obtain ⟨tokens, ended₁⟩ := ended.advance running
      obtain ⟨us, e₁, tokens₁, derived₁, closed₁⟩ :=
        operation_derives ih derived (by rwa [Draft.advance_previous])
          (by rw [Draft.advance_previous]; omega) ended₁ step
      rw [Draft.advance_previous] at derived₁ closed₁
      have derived₁' := derived₁.running
      have ended₂ : d₁.Ended := ended₁.of_append tokens₁ (by simp at derived₁'; exact derived₁'.2.2)
      obtain ⟨vs, e₂, tokens₂, derived₂, low⟩ := again derived₁ high closed₁ ended₂ rest
      refine ⟨d.current :: (us ++ vs), e₂, ?_, ?_, low⟩
      · rw [tokens, tokens₁, tokens₂, List.cons_append, List.append_assoc]
      · simpa using derived₂
    · next low =>
      cases run
      exact ⟨[], e, rfl, by simpa using derived.loosen positive looser, by omega⟩

theorem ending_eq_ok {l : Level} {d d' : Draft}
    (run : (ending l).run d = .ok () d') :
    d' = d ∧ (l = .assignment → d'.current.kind.isAssignment = false) := by
  simp only [ending, act_eq, EStateM.run_bind, run_current] at run
  split at run
  · cases run
  · next plain =>
    cases run
    refine ⟨rfl, ?_⟩
    rintro rfl
    simpa [Level.rank] using plain

theorem expression_derives (fuel : Nat) (l : Level) (positive : 0 < l.rank) :
    Reads l (expression fuel l) := by
  induction fuel generalizing l with
  | zero =>
    intro d d' _ run
    cases run
  | succ fuel ih =>
    intro d d' ended run
    rw [expression_succ, climb] at run
    obtain ⟨_, d₂, climb, ending⟩ := run_bind_eq_ok.1 run
    change (do
      operand (expression fuel) (l.rank ≤ Level.assignment.rank)
      operations (expression fuel) l fuel : Build Unit).run d.advance = _ at climb
    obtain ⟨_, d₁, first, loop⟩ := run_bind_eq_ok.1 climb
    have running : d.current.kind ≠ .eof := by
      intro eof
      simp only [operand, act_eq, EStateM.run_bind, run_previous, Draft.advance_previous, eof] at first
      cases first
    obtain ⟨tokens, ended₁⟩ := ended.advance running
    obtain ⟨ts, e, tokens₁, read⟩ := operand_derives (fun l h => ih l h) ended₁ first
    rw [Draft.advance_previous] at read
    obtain ⟨l₀, derived, looser, closed⟩ : ∃ l₀, Expression l₀ (d.current :: ts) e ∧
        l.rank ≤ l₀.rank ∧ l₀.closedBy d₁.current.kind := by
      rcases read with derived | ⟨assignable, derived, low⟩
      · refine ⟨.unary, derived, ?_, Level.closedBy_of_lt (Level.rank_ofOperator_lt _)⟩
        cases l <;> decide
      · exact ⟨.assignment, derived, of_decide_eq_true assignable, low⟩
    have derived' := derived.running
    obtain ⟨us, e', tokens₂, derived₂, low⟩ :=
      operations_derives (fun l h => ih l h) positive derived looser closed
        (ended₁.of_append tokens₁ ((running_cons _ _).1 derived').2) loop
    obtain ⟨rfl, plain⟩ := ending_eq_ok ending
    refine ⟨d.current :: (ts ++ us), e', ?_, derived₂, low, plain⟩
    rw [tokens, tokens₁, tokens₂, List.cons_append, List.append_assoc]

end StackScript
