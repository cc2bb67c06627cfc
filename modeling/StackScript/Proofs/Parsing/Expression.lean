import StackScript.Proofs.Drafting.Reading

/-! Precedence climbing reads the grammar: on the tokens of an expression, followed by
a token that does not continue it, the parser does what the tree says. A left operand
is parsed by the loop that also parses what follows it, so the induction is on that
loop, with the operators that are still to come left open. -/

namespace StackScript

open Build Grammar

theorem Level.ofOperator_of_mem {l : Level} {k : TokenKind} (h : k ∈ operators l) :
    Level.ofOperator k = l := by
  cases l
  all_goals simp only [operators, List.mem_cons, List.not_mem_nil, or_false] at h
  · rcases h with rfl | rfl <;> rfl
  · rcases h with rfl | rfl | rfl | rfl <;> rfl
  · rcases h with rfl | rfl <;> rfl
  · rcases h with rfl | rfl <;> rfl

theorem Level.rank_ofOperator_lt (k : TokenKind) :
    (Level.ofOperator k).rank < Level.unary.rank := by
  unfold Level.ofOperator
  split <;> decide

theorem TokenKind.not_isAssignment_of_operator {k : TokenKind}
    (h : 0 < (Level.ofOperator k).rank) : k.isAssignment = false := by
  cases k with
  | other label => simp [Level.ofOperator, Level.rank] at h
  | _ => revert h; decide

theorem Level.eq_assignment {l : Level} (positive : 0 < l.rank) (h : l.rank ≤ Level.assignment.rank) :
    l = .assignment := by
  cases l with
  | assignment => rfl
  | none => simp [Level.rank] at positive
  | _ => simp [Level.rank] at h

/-- Whether a token after an expression of the level leaves it as it is. -/
def Level.closedBy (l : Level) (k : TokenKind) : Prop :=
  match l with
  | .none | .assignment | .ternary | .or | .and => (Level.ofOperator k).rank < l.rank
  | _ => (Level.ofOperator k).rank ≤ l.rank

theorem Level.closedBy_of_lt {l : Level} {k : TokenKind}
    (h : (Level.ofOperator k).rank < l.rank) : l.closedBy k := by
  cases l
  all_goals
    simp only [closedBy]
    omega

theorem Level.rank_le_of_closedBy {l : Level} {k : TokenKind} (h : l.closedBy k) :
    (Level.ofOperator k).rank ≤ l.rank := by
  cases l
  all_goals
    simp only [closedBy] at h
    omega

theorem Level.rank_le_tighter (l : Level) : l.rank ≤ l.tighter.rank := by
  cases l <;> decide

theorem Level.closedBy_tighter {l : Level} {k : TokenKind} (h : l.closedBy k) :
    l.tighter.closedBy k := by
  have bound := Level.rank_ofOperator_lt k
  cases l
  all_goals simp only [closedBy, tighter, Level.rank] at *
  all_goals omega

theorem Level.of_mem_operators {l : Level} {k : TokenKind} (h : k ∈ operators l) :
    l.closedBy k ∧ 0 < l.rank ∧ l.tighter.rank = l.rank + 1 ∧ l.tighter ≠ .assignment := by
  have level := congrArg Level.rank (ofOperator_of_mem h)
  cases l with
  | equality | comparison | term | factor => exact ⟨Nat.le_of_eq level, by decide⟩
  | _ => simp [operators] at h

/-- The operators that the loop of the expression itself reads. -/
def Expr.spine : Expr → Nat
  | .binary a _ _ | .conditional a _ _ _ _ | .and a _ _ | .or a _ _ => a.spine + 1
  | _ => 0

theorem Grammar.Expression.spine_lt {l : Level} {ts : List Token} {e : Expr}
    (h : Expression l ts e) : e.spine < ts.length := by
  induction h with
  | tighter _ _ ih => exact ih
  | conditional _ _ _ _ _ ih _ _ =>
    simp only [Expr.spine, List.length_append, List.length_cons]
    omega
  | or _ _ _ ih _ | and _ _ _ ih _ | binary _ _ _ ih _ =>
    simp only [Expr.spine, List.length_append, List.length_cons]
    omega
  | _ => simp [Expr.spine]

theorem current_of_place {t : Token} {d d' : Draft} {p : Place} (run : (place t).run d = .ok p d') :
    d'.current = d.current := by
  obtain ⟨tokens, _, _⟩ := Takes.of_place t (List.nil_append _).symm d.tokens_ne_nil run
  exact (List.cons.inj tokens).1

theorem run_variableUse_read (self : Level → Build Unit) {assignable : Bool} {t : Token} {d : Draft}
    (plain : assignable → d.current.kind.isAssignment = false) :
    (variableUse self assignable t).run d =
      (do let p ← place t; modify (p.emitGet t) : Build Unit).run d := by
  refine run_bind_congr rfl fun p d' run => ?_
  rw [act_eq, EStateM.run_bind, run_current, current_of_place run]
  cases assignable with
  | false => rfl
  | true =>
    have kind := plain rfl
    simp only [TokenKind.isAssignment, Bool.or_eq_false_iff, decide_eq_false_iff_not,
      Option.isSome_eq_false_iff, Option.isNone_iff_eq_none] at kind
    simp [kind.1, kind.2]

theorem run_variableUse_assign (self : Level → Build Unit) {t : Token} {d : Draft}
    (kind : d.current.kind = .assign) :
    (variableUse self true t).run d =
      (do
        let p ← place t
        advance
        self .assignment
        modify (p.emitSet t) : Build Unit).run d := by
  refine run_bind_congr rfl fun p d' run => ?_
  rw [act_eq, EStateM.run_bind, run_current, current_of_place run]
  simp [kind]

theorem run_variableUse_compound (self : Level → Build Unit) {t op : Token} {d : Draft}
    (current : d.current = op) (kind : op.kind ∈ compounds) :
    (variableUse self true t).run d =
      (do
        let p ← place t
        advance
        modify (p.emitGet t)
        self .assignment
        emitFor (Opcode.ofCompound? op.kind) op
        modify (p.emitSet t) : Build Unit).run d := by
  refine run_bind_congr rfl fun p d' run => ?_
  rw [act_eq, EStateM.run_bind, run_current, current_of_place run, current]
  simp only [compounds, List.mem_cons, List.not_mem_nil, or_false] at kind
  rcases kind with kind | kind | kind | kind
  all_goals simp [kind, Opcode.ofCompound?, emitFor]

theorem not_mem_operators (l : Level) :
    TokenKind.question ∉ operators l ∧ TokenKind.kwAnd ∉ operators l ∧
      TokenKind.kwOr ∉ operators l := by
  cases l <;> decide

theorem exists_ofBinary {l : Level} {k : TokenKind} (kind : k ∈ operators l) :
    ∃ op, Opcode.ofBinary? k = some op := by
  have known : ∀ k ∈ operators l, (Opcode.ofBinary? k).isSome := by cases l <;> decide
  exact Option.isSome_iff_exists.1 (known k kind)

theorem run_operation_binary (self : Level → Build Unit) {l : Level} {op : Token} {d : Draft}
    (previous : d.previous = op) (kind : op.kind ∈ operators l) :
    (operation self).run d =
      (do self l.tighter; emitFor (Opcode.ofBinary? op.kind) op : Build Unit).run d := by
  obtain ⟨mark, conjunctive, disjunctive⟩ := not_mem_operators l
  simp only [operation, act_eq, EStateM.run_bind, run_previous, previous]
  split
  · next h => exact absurd (h ▸ kind) mark
  · next h => exact absurd (h ▸ kind) conjunctive
  · next h => exact absurd (h ▸ kind) disjunctive
  · obtain ⟨_, known⟩ := exists_ofBinary kind
    rw [Level.ofOperator_of_mem kind, known]
    rfl

/-- An operand and the operations after it, as an expression of a level begins. -/
def climb (fuel : Nat) (level : Level) (k : Nat) : Build Unit := do
  advance
  operand (expression fuel) (level.rank ≤ Level.assignment.rank)
  operations (expression fuel) level k

theorem expression_succ (fuel : Nat) (level : Level) :
    expression (fuel + 1) level = (do climb fuel level fuel; ending level) := by
  simp only [expression, act_eq, climb, bind_assoc]

/-- The loop reads the tokens as the tree, and goes on behind them. -/
def Climbs (l : Level) (ts : List Token) (e : Expr) : Prop :=
  ∀ ⦃fuel : Nat⦄ ⦃L : Level⦄ ⦃k : Nat⦄ ⦃d : Draft⦄ ⦃t : Token⦄ ⦃rest : List Token⦄,
    0 < L.rank → L.rank ≤ l.rank → ts.length ≤ fuel → d.tokens = ts ++ t :: rest →
    l.closedBy t.kind → (L = .assignment → t.kind.isAssignment = false) →
    (climb fuel L (k + e.spine)).run d = (do e.build; operations (expression fuel) L k).run d

def Parses (l : Level) (ts : List Token) (e : Expr) : Prop :=
  ∀ ⦃fuel : Nat⦄ ⦃d : Draft⦄ ⦃t : Token⦄ ⦃rest : List Token⦄,
    ts.length < fuel → d.tokens = ts ++ t :: rest →
    (Level.ofOperator t.kind).rank < l.rank → (l = .assignment → t.kind.isAssignment = false) →
    (expression fuel l).run d = e.build.run d

theorem run_stop {fuel k : Nat} {l : Level} {d : Draft}
    (low : (Level.ofOperator d.current.kind).rank < l.rank)
    (plain : l = .assignment → d.current.kind.isAssignment = false) :
    (do operations (expression fuel) l (k + 1); ending l : Build Unit).run d = .ok () d := by
  rw [EStateM.run_bind, run_operations_succ, if_neg (by omega)]
  simp only [ending, act_eq, EStateM.run_bind, run_current]
  rw [if_neg]
  · rfl
  · simp only [Bool.and_eq_true, decide_eq_true_eq, not_and, Bool.not_eq_true]
    exact fun h => plain (Level.eq_assignment (by omega) h)

theorem Climbs.parses {l L : Level} {ts : List Token} {e : Expr} (h : Climbs l ts e)
    (derived : Expression l ts e) (looser : L.rank ≤ l.rank) (positive : 0 < L.rank) :
    Parses L ts e := by
  intro fuel d t rest enough tokens low plain
  have spine := derived.spine_lt
  obtain ⟨n, rfl⟩ : ∃ n, fuel = n + 1 := ⟨fuel - 1, by omega⟩
  obtain ⟨k, hk⟩ : ∃ k, n = (k + 1) + e.spine := ⟨n - e.spine - 1, by omega⟩
  have closed : l.closedBy t.kind := Level.closedBy_of_lt (by omega)
  have climbs := h (k := k + 1) positive looser (Nat.le_of_lt_succ enough) tokens closed plain
  rw [← hk] at climbs
  rw [expression_succ, EStateM.run_bind, climbs, ← EStateM.run_bind, bind_assoc, EStateM.run_bind]
  cases build : e.build.run d with
  | error _ _ => rfl
  | ok a d' =>
    obtain ⟨tokens', _, _⟩ := derived.takes tokens (List.cons_ne_nil _ _) build
    have current := Draft.current_of_tokens tokens'
    exact run_stop (by rw [current]; exact low) (by rw [current]; exact plain)

theorem Climbs.of_operand {ts : List Token} {e : Expr} (spine : e.spine = 0)
    (h : ∀ {fuel : Nat} {assignable : Bool} {d : Draft} {t : Token} {rest : List Token},
      ts.length ≤ fuel → d.tokens = ts ++ t :: rest →
      (assignable → t.kind.isAssignment = false) →
      (do advance; operand (expression fuel) assignable : Build Unit).run d = e.build.run d) :
    Climbs .unary ts e := by
  intro fuel L k d t rest positive _ enough tokens _ plain
  have assignable : decide (L.rank ≤ Level.assignment.rank) → t.kind.isAssignment = false :=
    fun low => plain (Level.eq_assignment positive (of_decide_eq_true low))
  have run := h enough tokens assignable
  rw [spine, Nat.add_zero, climb, ← bind_assoc]
  exact run_bind_congr run fun _ _ _ => rfl

theorem Climbs.operation {la l : Level} {ts us : List Token} {a e : Expr} {op : Token}
    {tail : Build Unit} (left : Climbs la ts a) (derived : Expression la ts a)
    (spine : e.spine = a.spine + 1) (build : e.build = do a.build; advance; tail)
    (level : Level.ofOperator op.kind = l) (positive : 0 < l.rank)
    (closed : la.closedBy op.kind) (running : op.kind ≠ .eof)
    (right : ∀ {fuel : Nat} {d : Draft} {t : Token} {rest : List Token}, us.length < fuel →
      d.previous = op → d.tokens = us ++ t :: rest → l.closedBy t.kind →
      (Build.operation (expression fuel)).run d = tail.run d) :
    Climbs l (ts ++ op :: us) e := by
  intro fuel L k d t rest positiveL looser enough tokens closedBy _
  have nonempty := derived.spine_lt
  have order := Level.rank_le_of_closedBy closed
  have plain := TokenKind.not_isAssignment_of_operator (level ▸ positive)
  rw [level] at order
  simp only [List.length_append, List.length_cons] at enough
  rw [List.append_assoc, List.cons_append] at tokens
  have climbs := @left fuel L (k + 1) d op (us ++ t :: rest) positiveL (by omega) (by omega) tokens
    closed fun _ => plain
  rw [spine, ← Nat.add_assoc, Nat.add_right_comm, climbs, build]
  simp only [bind_assoc]
  refine run_bind_congr rfl fun _ d₁ run => ?_
  obtain ⟨tokens₁, _, _⟩ := derived.takes tokens (List.cons_ne_nil _ _) run
  have current := Draft.current_of_tokens tokens₁
  have tokens₂ := Draft.tokens_advance tokens₁ running (by simp)
  rw [run_operations_succ, current, level, if_pos looser]
  change _ = (do tail; operations (expression fuel) L k : Build Unit).run d₁.advance
  exact run_bind_congr (right (by omega) (by rw [Draft.advance_previous, current]) tokens₂ closedBy)
    fun _ _ _ => rfl

theorem climbs_literal {t : Token} (kind : t.kind ∈ literals) : Climbs .unary [t] (.literal t) := by
  refine Climbs.of_operand rfl fun _ tokens _ => run_bind_congr rfl fun _ d' run => ?_
  cases run
  simp only [literals, List.mem_cons, List.not_mem_nil, or_false] at kind
  simp only [operand, act_eq, EStateM.run_bind, run_previous, Draft.advance_previous,
    Draft.current_of_tokens tokens, literal]
  rcases kind with kind | kind | kind | kind | kind | kind
  all_goals simp only [kind]

theorem climbs_name {t : Token} (kind : t.kind = .identifier) : Climbs .unary [t] (.name t) := by
  refine Climbs.of_operand rfl fun _ tokens plain => run_bind_congr rfl fun _ d' run => ?_
  cases run
  have tokens' := Draft.tokens_advance tokens (by simp [kind]) (by simp)
  simp only [operand, act_eq, EStateM.run_bind, run_previous, Draft.advance_previous,
    Draft.current_of_tokens tokens, kind]
  rw [run_variableUse_read]
  · rfl
  · rw [Draft.current_of_tokens tokens']
    exact plain

theorem climbs_unary {op : Token} {ts : List Token} {e : Expr}
    (kind : op.kind = .minus ∨ op.kind = .bang) (ih : Parses .unary ts e) :
    Climbs .unary (op :: ts) (.unary op e) := by
  refine Climbs.of_operand rfl fun enough tokens _ => run_bind_congr rfl fun _ d' run => ?_
  cases run
  have tokens' := Draft.tokens_advance tokens (by rcases kind with h | h <;> simp [h]) (by simp)
  have parsed := ih enough tokens' (Level.rank_ofOperator_lt _) (by simp)
  simp only [operand, act_eq, EStateM.run_bind, run_previous, Draft.advance_previous,
    Draft.current_of_tokens tokens, Opcode.ofUnary]
  rcases kind with kind | kind
  all_goals
    simp only [kind, EStateM.run_bind, parsed]
    rfl

theorem climbs_group {opening closing : Token} {ts : List Token} {e : Expr}
    (left : opening.kind = .leftParen) (derived : Expression .assignment ts e)
    (right : closing.kind = .rightParen) (ih : Parses .assignment ts e) :
    Climbs .unary (opening :: (ts ++ [closing])) (.group opening e closing) := by
  refine Climbs.of_operand rfl ?_
  intro fuel _ d t rest enough tokens _
  refine run_bind_congr rfl fun _ d' run => ?_
  cases run
  rw [List.cons_append, List.append_assoc] at tokens
  simp only [List.length_cons, List.length_append] at enough
  have tokens' := Draft.tokens_advance tokens (by simp [left]) (by simp)
  have parsed := @ih fuel _ closing _ (by omega) tokens'
    (by simp [right, Level.ofOperator, Level.rank])
    (by simp [right, TokenKind.isAssignment, Opcode.ofCompound?])
  simp only [operand, act_eq, EStateM.run_bind, run_previous, Draft.advance_previous,
    Draft.current_of_tokens tokens, left, grouping, parsed]
  cases build : e.build.run d.advance with
  | error _ _ => rfl
  | ok _ d₁ =>
    obtain ⟨tokens₁, _, _⟩ := derived.takes tokens' (by simp) build
    simp [Draft.current_of_tokens tokens₁, right]

theorem climbs_binary {l : Level} {op : Token} {ts us : List Token} {a b : Expr}
    (derived : Expression l ts a) (kind : op.kind ∈ operators l) (left : Climbs l ts a)
    (right : Parses l.tighter us b) : Climbs l (ts ++ op :: us) (.binary a op b) := by
  obtain ⟨closed, positive, next, tight⟩ := Level.of_mem_operators kind
  refine left.operation derived rfl rfl (Level.ofOperator_of_mem kind) positive closed
    (ne_of_mem_of_not_mem kind (eof_not_mem_operators l)) fun enough previous tokens closed => ?_
  have low := Level.rank_le_of_closedBy closed
  rw [run_operation_binary _ previous kind]
  exact run_bind_congr (right enough tokens (by omega) fun h => absurd h tight) fun _ _ _ => rfl

theorem climbs_and {op : Token} {ts us : List Token} {a b : Expr}
    (derived : Expression .equality ts a) (kind : op.kind = .kwAnd) (left : Climbs .equality ts a)
    (right : Parses .and us b) : Climbs .and (ts ++ op :: us) (.and a op b) := by
  refine left.operation derived rfl rfl (by rw [kind]; rfl) (by decide)
    (by simp [kind, Level.closedBy, Level.ofOperator, Level.rank]) (by simp [kind])
    fun enough previous tokens closed => ?_
  simp only [operation, act_eq, EStateM.run_bind, run_previous, previous, kind]
  refine run_bind_congr rfl fun _ _ jump => run_bind_congr rfl fun _ _ pop => ?_
  cases jump
  cases pop
  exact run_bind_congr (right enough tokens closed (by simp)) fun _ _ _ => rfl

theorem climbs_or {op : Token} {ts us : List Token} {a b : Expr}
    (derived : Expression .and ts a) (kind : op.kind = .kwOr) (left : Climbs .and ts a)
    (right : Parses .or us b) : Climbs .or (ts ++ op :: us) (.or a op b) := by
  refine left.operation derived rfl rfl (by rw [kind]; rfl) (by decide)
    (by simp [kind, Level.closedBy, Level.ofOperator, Level.rank]) (by simp [kind])
    fun enough previous tokens closed => ?_
  simp only [operation, act_eq, EStateM.run_bind, run_previous, previous, kind]
  refine run_bind_congr rfl fun _ _ jump => run_bind_congr rfl fun _ _ jump' =>
    run_bind_congr rfl fun _ _ patch => run_bind_congr rfl fun _ _ pop => ?_
  cases jump
  cases jump'
  cases pop
  obtain ⟨tokens', _, _⟩ := Takes.of_patchJump _ (List.nil_append _).symm (Draft.tokens_ne_nil _) patch
  exact run_bind_congr (right enough (tokens'.trans tokens) closed (by simp)) fun _ _ _ => rfl

theorem climbs_conditional {mark colon : Token} {ts us vs : List Token} {c a b : Expr}
    (derived : Expression .or ts c) (kind : mark.kind = .question)
    (derived' : Expression .ternary us a) (kind' : colon.kind = .colon) (first : Climbs .or ts c)
    (second : Parses .ternary us a) (third : Parses .ternary vs b) :
    Climbs .ternary (ts ++ mark :: (us ++ colon :: vs)) (.conditional c mark a colon b) := by
  refine first.operation derived rfl rfl (by rw [kind]; rfl) (by decide)
    (by simp [kind, Level.closedBy, Level.ofOperator, Level.rank]) (by simp [kind]) ?_
  intro fuel d t rest enough previous tokens closed
  simp only [List.length_append, List.length_cons] at enough
  rw [List.append_assoc, List.cons_append] at tokens
  have parsed := @second fuel d colon _ (by omega) tokens
    (by simp [kind', Level.ofOperator, Level.rank]) (by simp)
  have step : (operation (expression fuel)).run d = (conditional (expression fuel) mark).run d := by
    simp only [operation, act_eq, EStateM.run_bind, run_previous, previous, kind]
  refine step.trans (run_bind_congr parsed fun _ d₁ run => ?_)
  obtain ⟨tokens₁, _, _⟩ := derived'.takes tokens (by simp) run
  have tokens₂ := Draft.tokens_advance tokens₁ (by simp [kind']) (by simp)
  have colons : (expect .colon .expectedColon).run d₁ = advance.run d₁ := by
    rw [run_expect, Draft.current_of_tokens tokens₁, if_pos kind', run_advance]
  refine run_bind_congr colons fun _ _ run' => ?_
  cases run'
  exact run_bind_congr (third (by omega) tokens₂ closed (by simp)) fun _ _ _ => rfl

theorem Parses.of_operand {ts : List Token} {e : Expr} (derived : Expression .assignment ts e)
    (h : ∀ {fuel : Nat} {d : Draft} {t : Token} {rest : List Token}, ts.length ≤ fuel →
      d.tokens = ts ++ t :: rest → (Level.ofOperator t.kind).rank < Level.assignment.rank →
      t.kind.isAssignment = false →
      (do advance; operand (expression fuel) true : Build Unit).run d = e.build.run d) :
    Parses .assignment ts e := by
  intro fuel d t rest enough tokens low plain
  have nonempty := derived.spine_lt
  obtain ⟨n, rfl⟩ : ∃ n, fuel = n + 1 + 1 := ⟨fuel - 2, by omega⟩
  have run := h (Nat.le_of_lt_succ enough) tokens low (plain rfl)
  rw [expression_succ, climb, bind_assoc, bind_assoc, ← bind_assoc]
  refine (run_bind_congr run fun _ _ _ => rfl).trans ?_
  rw [EStateM.run_bind]
  cases build : e.build.run d with
  | error _ _ => rfl
  | ok _ d' =>
    obtain ⟨tokens', _, _⟩ := derived.takes tokens (List.cons_ne_nil _ _) build
    have current := Draft.current_of_tokens tokens'
    exact run_stop (by rw [current]; exact low) (by rw [current]; exact plain)

theorem tokens_behind_place {target op : Token} {ts : List Token} {d d' : Draft} {p : Place}
    (tokens : d.tokens = op :: ts) (running : op.kind ≠ .eof) (more : ts ≠ [])
    (run : (place target).run d = .ok p d') : d'.advance.tokens = ts := by
  obtain ⟨tokens', _, _⟩ := Takes.of_place _ (List.nil_append _).symm d.tokens_ne_nil run
  exact Draft.tokens_advance (tokens'.trans tokens) running more

theorem parses_assign {target op : Token} {ts : List Token} {e : Expr}
    (name : target.kind = .identifier) (kind : op.kind = .assign)
    (derived : Expression .assignment ts e) (ih : Parses .assignment ts e) :
    Parses .assignment (target :: op :: ts) (.assign target op e) := by
  refine Parses.of_operand (.assign name kind derived) ?_
  intro fuel d t rest enough tokens low plain
  refine run_bind_congr rfl fun _ _ run => ?_
  cases run
  simp only [List.length_cons] at enough
  have tokens₁ := Draft.tokens_advance tokens (by simp [name]) (by simp)
  have current := Draft.current_of_tokens tokens₁
  have previous : d.advance.previous = target := by
    rw [Draft.advance_previous, Draft.current_of_tokens tokens]
  rw [run_operand_of_name (by rw [previous]; exact name), previous,
    run_variableUse_assign _ (by rw [current]; exact kind)]
  refine run_bind_congr rfl fun p d₁ placed => run_bind_congr rfl fun _ _ run => ?_
  cases run
  have tokens₂ := tokens_behind_place tokens₁ (by simp [kind]) (by simp) placed
  exact run_bind_congr (ih (by omega) tokens₂ low fun _ => plain) fun _ _ _ => rfl

theorem parses_compound {target op : Token} {ts : List Token} {e : Expr}
    (name : target.kind = .identifier) (kind : op.kind ∈ compounds)
    (derived : Expression .assignment ts e) (ih : Parses .assignment ts e) :
    Parses .assignment (target :: op :: ts) (.compound target op e) := by
  refine Parses.of_operand (.compound name kind derived) ?_
  intro fuel d t rest enough tokens low plain
  refine run_bind_congr rfl fun _ _ run => ?_
  cases run
  simp only [List.length_cons] at enough
  have running := ne_of_mem_of_not_mem kind (by decide : TokenKind.eof ∉ compounds)
  have tokens₁ := Draft.tokens_advance tokens (by simp [name]) (by simp)
  have current := Draft.current_of_tokens tokens₁
  have previous : d.advance.previous = target := by
    rw [Draft.advance_previous, Draft.current_of_tokens tokens]
  rw [run_operand_of_name (by rw [previous]; exact name), previous,
    run_variableUse_compound _ current kind]
  refine run_bind_congr rfl fun p d₁ placed => run_bind_congr rfl fun _ _ run =>
    run_bind_congr rfl fun _ d₂ get => ?_
  cases run
  have tokens₂ := tokens_behind_place tokens₁ running (by simp) placed
  obtain ⟨tokens₃, _, _⟩ := Takes.of_emitGet p target (List.nil_append _).symm
    (Draft.tokens_ne_nil _) get
  exact run_bind_congr (ih (by omega) (tokens₃.trans tokens₂) low fun _ => plain) fun _ _ _ => rfl

theorem Grammar.Expression.climbs {l : Level} {ts : List Token} {e : Expr}
    (h : Expression l ts e) : (l ≠ .assignment → Climbs l ts e) ∧ Parses l ts e := by
  have close {l : Level} {ts : List Token} {e : Expr} (derived : Expression l ts e)
      (positive : 0 < l.rank) (climbs : Climbs l ts e) :
      (l ≠ .assignment → Climbs l ts e) ∧ Parses l ts e :=
    ⟨fun _ => climbs, climbs.parses derived (Nat.le_refl _) positive⟩
  induction h with
  | assign name kind derived ih =>
    exact ⟨fun h => absurd rfl h, parses_assign name kind derived ih.2⟩
  | compound name kind derived ih =>
    exact ⟨fun h => absurd rfl h, parses_compound name kind derived ih.2⟩
  | @tighter l ts e positive derived ih =>
    have rank : 0 < l.rank := by
      cases l with
      | none => contradiction
      | _ => decide
    have tight : l.tighter ≠ .assignment := by
      cases l with
      | none => contradiction
      | _ => decide
    have climbs := ih.1 tight
    refine ⟨fun _ => ?_, climbs.parses derived l.rank_le_tighter rank⟩
    intro fuel L k d t rest positiveL looser enough tokens closed plain
    exact climbs positiveL (Nat.le_trans looser l.rank_le_tighter) enough tokens
      (Level.closedBy_tighter closed) plain
  | conditional c mark a colon b ihc iha ihb =>
    exact close (.conditional c mark a colon b) (by decide)
      (climbs_conditional c mark a colon (ihc.1 (by decide)) iha.2 ihb.2)
  | or a op b iha ihb =>
    exact close (.or a op b) (by decide) (climbs_or a op (iha.1 (by decide)) ihb.2)
  | and a op b iha ihb =>
    exact close (.and a op b) (by decide) (climbs_and a op (iha.1 (by decide)) ihb.2)
  | @binary l op ts us a b a op b iha ihb =>
    obtain ⟨_, positive, _, _⟩ := Level.of_mem_operators op
    have loose : l ≠ .assignment := by
      rintro rfl
      simp [operators] at op
    exact close (.binary a op b) positive (climbs_binary a op (iha.1 loose) ihb.2)
  | unary op e ih => exact close (.unary op e) (by decide) (climbs_unary op ih.2)
  | literal kind => exact close (.literal kind) (by decide) (climbs_literal kind)
  | name kind => exact close (.name kind) (by decide) (climbs_name kind)
  | group opening e closing ih =>
    exact close (.group opening e closing) (by decide) (climbs_group opening e closing ih.2)

end StackScript
