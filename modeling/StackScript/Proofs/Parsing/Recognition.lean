import StackScript.Proofs.Parsing.Derivation
import StackScript.Proofs.Parsing.Statement

/-! What the parser of statements accepts without a fault derives from the grammar, and
every condition in it is the longest one. -/

namespace StackScript

open Build Grammar

theorem Blames.of_ok {α : Type} {x : Build α} {d d' : Draft} {a : α} (h : Blames x)
    (sound : d.Sound) (run : x.run d = .ok a d') :
    d'.Sound ∧ (d'.faults = [] → d.faults = []) := by
  have keeps := h sound
  rw [run] at keeps
  exact ⟨keeps.1, fun none => Classical.not_not.1 fun faults => keeps.2 faults none⟩

/-- A run without a fault has read a statement. -/
def StatementReads (x : Build Unit) : Prop :=
  ∀ ⦃d d' : Draft⦄, d.Ended → d.Sound → x.run d = .ok () d' → d'.faults = [] →
    ∃ ts s, d.tokens = ts ++ d'.tokens ∧ Statement ts s ∧ s.greedy ∧
      (s.dangling → d'.current.kind.stopsBranch)

def DeclarationReads (x : Build Unit) : Prop :=
  ∀ ⦃d d' : Draft⦄, d.Ended → d.Sound → x.run d = .ok () d' → d'.faults = [] →
    ∃ ts x, d.tokens = ts ++ d'.tokens ∧ Declaration ts x ∧ x.greedy

theorem expect_eq_ok {kind : TokenKind} {fault : SyntaxFault} {d d' : Draft} (ended : d.Ended)
    (running : kind ≠ .eof) (run : (expect kind fault).run d = .ok () d') :
    d.current.kind = kind ∧ d.tokens = d.current :: d'.tokens ∧ d'.Ended ∧ d' = d.advance := by
  rw [run_expect] at run
  split at run
  · next is =>
    cases run
    obtain ⟨tokens, ended'⟩ := ended.advance (by rwa [is])
    exact ⟨is, tokens, ended', rfl⟩
  · cases run

theorem leading_ne_minus {us : List Token} {s : Stmt} {d d' : Draft} (body : Statement us s)
    (tokens : d.tokens = us ++ d'.tokens)
    (low : (Level.ofOperator d.current.kind).rank < Level.assignment.rank) :
    s.leading.kind ≠ .minus := by
  obtain ⟨vs, rfl, _⟩ := body.leading
  have current : d.current = s.leading := Draft.current_of_tokens tokens
  intro minus
  rw [current, minus] at low
  exact absurd low (by decide)

variable {expr stmt : Build Unit}

/-- A condition, and behind it a body that it guards. Between and after them nothing is
read. -/
theorem guarded_derives (reads : Reads .assignment expr) (statement : StatementReads stmt)
    {d d₁ d₃ d₄ d' : Draft} (ended : d.Ended) (condition : expr.run d = .ok () d₁)
    (body : stmt.run d₃ = .ok () d₄) (between : d₃.tokens = d₁.tokens) (sound : d₃.Sound)
    (clean : d₄.faults = []) (after : d'.tokens = d₄.tokens) :
    ∃ ts us c s, d.tokens = ts ++ (us ++ d'.tokens) ∧ Expression .assignment ts c ∧
      Statement us s ∧ (s.leading.kind ≠ .minus ∧ s.greedy) ∧
      (s.dangling → d'.current.kind.stopsBranch) := by
  obtain ⟨ts, c, tokens₁, derived, low, _⟩ := reads ended condition
  obtain ⟨us, s, tokens₄, derived', greedy, stops⟩ :=
    statement ((reads.ended ended condition).same between) sound body clean
  refine ⟨ts, us, c, s, ?_, derived, derived', ⟨leading_ne_minus derived' tokens₄ ?_, greedy⟩, ?_⟩
  · rw [tokens₁, ← between, tokens₄, after]
  · rwa [Draft.current_eq between]
  · rwa [Draft.current_eq after]

theorem arm_derives (reads : Reads .assignment expr) (blames : Blames expr)
    (statement : StatementReads stmt) {d d' : Draft} {exit : Nat} (ended : d.Ended)
    (sound : d.Sound) (run : (arm expr stmt).run d = .ok exit d') (clean : d'.faults = []) :
    ∃ ts us c s, d.tokens = ts ++ (us ++ d'.tokens) ∧ Expression .assignment ts c ∧
      Statement us s ∧ (s.leading.kind ≠ .minus ∧ s.greedy) ∧
      (s.dangling → d'.current.kind.stopsBranch) := by
  obtain ⟨_, d₁, condition, run⟩ := run_bind_eq_ok.1 run
  obtain ⟨skip, d₂, jump, run⟩ := run_bind_eq_ok.1 run
  obtain ⟨_, d₃, pop, run⟩ := run_bind_eq_ok.1 run
  obtain ⟨_, d₄, body, run⟩ := run_bind_eq_ok.1 run
  have ending : Takes [] (do
      let exit ← emitJump .jump
      patchJump skip
      emit .pop
      return exit) :=
    (Takes.of_emitJump _).bind_right fun _ => (Takes.of_patchJump _).bind_right fun _ =>
      (Takes.of_emit _).bind_right fun _ => Takes.of_pure _
  obtain ⟨after, faults, _⟩ := ending (List.nil_append _).symm d₄.tokens_ne_nil run
  have sound₁ := (blames.of_ok sound condition).1
  cases jump
  cases pop
  exact guarded_derives reads statement ended condition body rfl sound₁ (faults ▸ clean) after

theorem while_derives (reads : Reads .assignment expr) (blames : Blames expr)
    (statement : StatementReads stmt) {d d' : Draft} (ended : d.Ended) (sound : d.Sound)
    (run : (whileStatement expr stmt).run d = .ok () d') (clean : d'.faults = []) :
    ∃ ts us c s, d.tokens = ts ++ (us ++ d'.tokens) ∧ Expression .assignment ts c ∧
      Statement us s ∧ (s.leading.kind ≠ .minus ∧ s.greedy) ∧
      (s.dangling → d'.current.kind.stopsBranch) := by
  obtain ⟨_, d₀, get, run⟩ := run_bind_eq_ok.1 run
  cases get
  obtain ⟨_, d₁, condition, run⟩ := run_bind_eq_ok.1 run
  obtain ⟨exit, d₂, jump, run⟩ := run_bind_eq_ok.1 run
  obtain ⟨_, d₃, pop, run⟩ := run_bind_eq_ok.1 run
  obtain ⟨_, d₄, body, run⟩ := run_bind_eq_ok.1 run
  have ending : Takes [] (do
      emitLoop d.chunk.code.size
      patchJump exit
      emit .pop) :=
    (Takes.of_emitLoop _).bind_right fun _ => (Takes.of_patchJump _).bind_right fun _ =>
      Takes.of_emit _
  obtain ⟨after, faults, _⟩ := ending (List.nil_append _).symm d₄.tokens_ne_nil run
  have sound₁ := (blames.of_ok sound condition).1
  cases jump
  cases pop
  exact guarded_derives reads statement ended condition body rfl sound₁ (faults ▸ clean) after

theorem not_dangling {vs : List Token} {s : Stmt} {r : Rest} {d d' : Draft}
    (more : Continuation vs r) (tokens : d.tokens = vs ++ d'.tokens)
    (stops : s.dangling → d.current.kind.stopsBranch) (nonempty : vs ≠ []) : s.dangling = false := by
  rcases more.leading with ⟨rfl, _⟩ | ⟨t, us, rfl, kind⟩
  · contradiction
  · have current : d.current = t := Draft.current_of_tokens tokens
    rw [current] at stops
    refine Bool.eq_false_iff.2 fun dangling => ?_
    rcases kind with kind | kind
    · exact (stops dangling).1 kind
    · exact (stops dangling).2 kind

/-- What follows an arm, once the tokens behind the arm are known to be read. -/
def RestReads (expr stmt : Build Unit) (fuel : Nat) : Prop :=
  ∀ ⦃exits : List Nat⦄ ⦃d d' : Draft⦄, d.Ended → d.Sound →
    (branchRest expr stmt fuel exits).run d = .ok () d' → d'.faults = [] →
    ∃ vs r, d.tokens = vs ++ d'.tokens ∧ Continuation vs r ∧ r.greedy ∧
      (r.dangling → d'.current.kind.stopsBranch)

theorem arm_rest_derives (reads : Reads .assignment expr) (blames : Blames expr)
    (statement : StatementReads stmt) (blames' : Blames stmt) {fuel : Nat}
    (more : RestReads expr stmt fuel) {exits : List Nat} {d d' : Draft} (ended : d.Ended)
    (sound : d.Sound)
    (run : (arm expr stmt >>= fun exit => branchRest expr stmt fuel (exit :: exits)).run d =
      .ok () d') (clean : d'.faults = []) :
    ∃ ts us vs c s r, d.tokens = ts ++ (us ++ vs) ++ d'.tokens ∧ Expression .assignment ts c ∧
      Statement us s ∧ Continuation vs r ∧ (vs ≠ [] → s.dangling = false) ∧
      ((s.leading.kind ≠ .minus ∧ s.greedy) ∧ r.greedy) ∧
      (r.dangling → d'.current.kind.stopsBranch) := by
  obtain ⟨exit, d₁, armed, rest⟩ := run_bind_eq_ok.1 run
  have sound₁ := ((Blames.of_arm blames blames').of_ok sound armed).1
  have clean₁ := ((Blames.of_branchRest blames blames' _ _).of_ok sound₁ rest).2 clean
  obtain ⟨ts, us, c, s, tokens, derived, derived', greedy, stops⟩ :=
    arm_derives reads blames statement ended sound armed clean₁
  have ended₁ : d₁.Ended := by
    rw [← List.append_assoc] at tokens
    exact ended.of_append tokens ((running_append _ _).2 ⟨derived.running, derived'.running⟩)
  obtain ⟨vs, r, tokens₁, continued, greedy', stops'⟩ := more ended₁ sound₁ rest clean
  refine ⟨ts, us, vs, c, s, r, ?_, derived, derived', continued,
    not_dangling continued tokens₁ stops, ⟨greedy, greedy'⟩, stops'⟩
  rw [tokens, tokens₁]
  simp only [List.append_assoc]

theorem last_derives (statement : StatementReads stmt) {fuel : Nat} {exits : List Nat}
    {d d' : Draft} (ended : d.Ended) (sound : d.Sound)
    (run : (branchRest expr stmt fuel exits).run d = .ok () d') (clean : d'.faults = [])
    (elif : d.current.kind ≠ .kwElif) :
    ∃ vs r, d.tokens = vs ++ d'.tokens ∧ Continuation vs r ∧ r.greedy ∧
      (r.dangling → d'.current.kind.stopsBranch) := by
  by_cases otherwise : d.current.kind = .kwElse
  · rw [run_branchRest_otherwise _ _ _ _ otherwise] at run
    obtain ⟨tokens, ended₁⟩ := ended.advance (by simp [otherwise])
    obtain ⟨_, d₁, body, patch⟩ := run_bind_eq_ok.1 run
    obtain ⟨after, faults, _⟩ := Takes.of_patchAll _ (List.nil_append _).symm d₁.tokens_ne_nil patch
    obtain ⟨ts, s, tokens₁, derived, greedy, stops⟩ :=
      statement ended₁ sound.advance body (faults ▸ clean)
    refine ⟨d.current :: ts, _, ?_, .otherwise otherwise derived, greedy, ?_⟩
    · rw [tokens, tokens₁, after, List.cons_append]
    · rwa [Draft.current_eq after]
  · rw [run_branchRest_done _ _ _ _ ⟨elif, otherwise⟩] at run
    have after := (Takes.of_patchAll _).tokens_eq run
    refine ⟨[], .done, after.symm, .done, rfl, fun _ => ?_⟩
    rw [Draft.current_eq after]
    exact ⟨elif, otherwise⟩

theorem rest_derives (reads : Reads .assignment expr) (blames : Blames expr)
    (statement : StatementReads stmt) (blames' : Blames stmt) (fuel : Nat) :
    RestReads expr stmt fuel := by
  induction fuel with
  | zero =>
    intro exits d d' ended sound run clean
    refine last_derives statement ended sound run clean fun elif => ?_
    simp [branchRest, moreArms, arms, outside_eq, elif] at run
  | succ fuel ih =>
    intro exits d d' ended sound run clean
    by_cases elif : d.current.kind = .kwElif
    · rw [run_branchRest_elif _ _ _ _ elif] at run
      obtain ⟨tokens, ended₁⟩ := ended.advance (by simp [elif])
      obtain ⟨ts, us, vs, c, s, r, tokens₁, derived, derived', continued, dangling, greedy, stops⟩ :=
        arm_rest_derives reads blames statement blames' ih ended₁ sound.advance run clean
      refine ⟨d.current :: (ts ++ (us ++ vs)), _, ?_,
        .elif elif derived derived' continued dangling, ?_, stops⟩
      · rw [tokens, tokens₁, List.cons_append]
      · simpa [Rest.greedy] using greedy
    · exact last_derives statement ended sound run clean elif

theorem initializer_derives (reads : Reads .assignment expr) {d d' : Draft} (ended : d.Ended)
    (run : (initializer expr).run d = .ok () d') :
    (∃ semicolon, semicolon.kind = .semicolon ∧ d.tokens = semicolon :: d'.tokens) ∨
    ∃ equals ts e semicolon, equals.kind = .assign ∧ Expression .assignment ts e ∧
      semicolon.kind = .semicolon ∧ d.tokens = equals :: (ts ++ semicolon :: d'.tokens) := by
  simp only [initializer, act_eq, EStateM.run_bind, run_take] at run
  by_cases kind : d.current.kind = .assign
  · rw [if_pos kind] at run
    obtain ⟨tokens, ended₁⟩ := ended.advance (by simp [kind])
    obtain ⟨_, d₁, value, semicolon⟩ := run_bind_eq_ok.1 run
    obtain ⟨ts, e, tokens₁, derived, _⟩ := reads ended₁ value
    obtain ⟨kind', tokens₂, _⟩ := expect_eq_ok (reads.ended ended₁ value) (by simp) semicolon
    refine .inr ⟨_, ts, e, _, kind, derived, kind', ?_⟩
    rw [tokens, tokens₁, tokens₂]
  · rw [if_neg kind] at run
    obtain ⟨_, d₁, push, semicolon⟩ := run_bind_eq_ok.1 run
    have tokens₁ : d₁.tokens = d.tokens := (Takes.of_emit .pushNone).tokens_eq push
    obtain ⟨kind', tokens₂, _⟩ := expect_eq_ok (ended.same tokens₁) (by simp) semicolon
    exact .inl ⟨_, kind', by rw [← tokens₁, tokens₂]⟩

theorem declare_eq_ok {name : Token} {value : Build Unit} {d d' : Draft}
    (run : (declare name value).run d = .ok () d') :
    ∃ d₁ d₂, d₁.tokens = d.tokens ∧ value.run d₁ = .ok () d₂ ∧ d'.tokens = d₂.tokens := by
  simp only [declare, EStateM.run_bind, EStateM.run_get] at run
  split at run
  · obtain ⟨_, d₁, value, rest⟩ := run_bind_eq_ok.1 run
    obtain ⟨index, d₂, constant, define⟩ := run_bind_eq_ok.1 rest
    have same : d₂.tokens = d₁.tokens := (Takes.of_nameConstant name).tokens_eq constant
    cases define
    exact ⟨d, d₁, rfl, value, same⟩
  · split at run
    · cases run
    · split at run
      · cases run
      · next scope _ =>
        rw [EStateM.run_bind, EStateM.run_modify] at run
        dsimp only at run
        rw [run_andThen] at run
        split at run
        · next d₁ value =>
          cases run
          exact ⟨{ d with scope }, d₁, rfl, value, rfl⟩
        · cases run

theorem let_derives (reads : Reads .assignment expr) {d d' : Draft} (ended : d.Ended)
    (kind : d.current.kind = .kwLet)
    (run : (letDeclaration expr).run d.advance = .ok () d') :
    ∃ ts x, d.tokens = ts ++ d'.tokens ∧ Declaration ts x ∧ x.greedy := by
  obtain ⟨tokens, ended₁⟩ := ended.advance (by simp [kind])
  obtain ⟨_, d₁, identifier, rest⟩ := run_bind_eq_ok.1 run
  obtain ⟨kind₁, tokens₁, ended₂, rfl⟩ := expect_eq_ok ended₁ (by simp) identifier
  obtain ⟨d₂, d₃, before, value, after⟩ := declare_eq_ok rest
  rcases initializer_derives reads (ended₂.same before) value with
    ⟨semicolon, kind₂, tokens₂⟩ | ⟨equals, ts, e, semicolon, kind₂, derived, kind₃, tokens₂⟩
  · refine ⟨_, _, ?_, .bind kind kind₁ kind₂, rfl⟩
    rw [tokens, tokens₁, ← before, tokens₂, after]
    rfl
  · refine ⟨_, _, ?_, .bindTo kind kind₁ kind₂ derived kind₃, rfl⟩
    rw [tokens, tokens₁, ← before, tokens₂, after]
    simp only [List.cons_append, List.append_assoc, List.nil_append]

theorem declaration_derives (reads : Reads .assignment expr) (blames : Blames expr)
    (statement : StatementReads stmt) (blames' : Blames stmt) :
    DeclarationReads (declaration expr stmt) := by
  intro d d' ended sound run clean
  have blamed : Blames (do if ← take .kwLet then letDeclaration expr else stmt) :=
    (Blames.of_take _).bind fun _ => Blames.of_ite (Blames.of_letDeclaration blames) blames'
  have faults := blamed sound
  rw [run_declaration] at run
  cases body : (do if ← take .kwLet then letDeclaration expr else stmt : Build Unit).run d with
  | ok _ d₁ =>
    rw [body] at run
    cases run
    by_cases kind : d.current.kind = .kwLet
    · rw [run_take_let' kind] at body
      obtain ⟨ts, x, tokens, derived, greedy⟩ := let_derives reads ended kind body
      exact ⟨ts, x, tokens, derived, greedy⟩
    · have other : stmt.run d = .ok () d₁ := by simpa [kind] using body
      obtain ⟨ts, s, tokens, derived, greedy, _⟩ := statement ended sound other clean
      exact ⟨ts, .statement s, tokens, .statement derived, greedy⟩
  | error _ d₁ =>
    -- A declaration that gave up has recorded a fault, and recovery keeps it.
    rw [body] at run faults
    cases run
    exact absurd clean faults

theorem blockBody_derives {decl : Build Unit} (reads : DeclarationReads decl) (blames : Blames decl)
    {fuel : Nat} {d d' : Draft} (ended : d.Ended) (sound : d.Sound)
    (run : (blockBody decl fuel).run d = .ok () d') (clean : d'.faults = []) :
    ∃ ts ds closing, d.tokens = ts ++ closing :: d'.tokens ∧ Grammar.Program ts ds ∧
      greedyAll ds ∧ closing.kind = .rightBrace := by
  induction fuel generalizing d with
  | zero => cases run
  | succ fuel ih =>
    simp only [blockBody, act_eq, EStateM.run_bind, run_current] at run
    split at run
    · obtain ⟨kind, tokens, _⟩ := expect_eq_ok ended (by simp) run
      exact ⟨[], [], _, tokens, .nil, rfl, kind⟩
    · obtain ⟨_, d₁, first, rest⟩ := run_bind_eq_ok.1 run
      have sound₁ := (blames.of_ok sound first).1
      have clean₁ := ((Blames.of_blockBody blames fuel).of_ok sound₁ rest).2 clean
      obtain ⟨ts, x, tokens, derived, greedy⟩ := reads ended sound first clean₁
      obtain ⟨us, ds, closing, tokens₁, derived', greedy', kind⟩ :=
        ih (ended.of_append tokens derived.running) sound₁ rest
      refine ⟨ts ++ us, x :: ds, closing, ?_, .cons derived derived', ?_, kind⟩
      · rw [tokens, tokens₁, List.append_assoc]
      · simp [greedyAll, greedy, greedy']

theorem ended_derives (reads : Reads .assignment expr) {fault : SyntaxFault} {op : Opcode}
    {d d' : Draft} (ended : d.Ended)
    (run : (do expr; expect .semicolon fault; emit op : Build Unit).run d = .ok () d') :
    ∃ ts e semicolon, d.tokens = ts ++ semicolon :: d'.tokens ∧ Expression .assignment ts e ∧
      semicolon.kind = .semicolon := by
  obtain ⟨_, d₁, value, rest⟩ := run_bind_eq_ok.1 run
  obtain ⟨_, d₂, semicolon, last⟩ := run_bind_eq_ok.1 rest
  obtain ⟨ts, e, tokens, derived, _⟩ := reads ended value
  obtain ⟨kind, tokens', _⟩ := expect_eq_ok (reads.ended ended value) (by simp) semicolon
  refine ⟨ts, e, d₁.current, ?_, derived, kind⟩
  rw [tokens, tokens', (Takes.of_emit op).tokens_eq last]

theorem statement_derives (reads : Reads .assignment expr) (blames : Blames expr) (fuel : Nat) :
    StatementReads (statement expr fuel) := by
  induction fuel with
  | zero =>
    intro d d' _ _ run
    cases run
  | succ fuel ih =>
    have blames' := Blames.of_statement blames fuel
    intro d d' ended sound run clean
    simp only [statement, act_eq, EStateM.run_bind, run_current] at run
    split at run
    · next kind =>
      obtain ⟨tokens, ended₁⟩ := ended.advance (by simp [kind])
      obtain ⟨ts, e, semicolon, tokens₁, derived, kind'⟩ := ended_derives reads ended₁ run
      refine ⟨_, _, ?_, .print kind derived kind', rfl, by simp [Stmt.dangling]⟩
      rw [tokens, tokens₁, List.cons_append, List.append_assoc, List.singleton_append]
    · next kind =>
      obtain ⟨tokens, ended₁⟩ := ended.advance (by simp [kind])
      obtain ⟨m, rfl⟩ : ∃ m, fuel = m + 1 := by
        cases fuel with
        | zero => cases run
        | succ m => exact ⟨m, rfl⟩
      rw [ifStatement_eq] at run
      obtain ⟨ts, us, vs, c, s, r, tokens₁, derived, derived', continued, dangling, greedy, stops⟩ :=
        arm_rest_derives reads blames ih blames' (rest_derives reads blames ih blames' _) ended₁
          sound.advance run clean
      refine ⟨d.current :: (ts ++ (us ++ vs)), _, ?_,
        .branch kind derived derived' continued dangling, ?_, stops⟩
      · rw [tokens, tokens₁, List.cons_append]
      · simpa [Stmt.greedy] using greedy
    · next kind =>
      obtain ⟨tokens, ended₁⟩ := ended.advance (by simp [kind])
      obtain ⟨ts, us, c, s, tokens₁, derived, derived', greedy, stops⟩ :=
        while_derives reads blames ih ended₁ sound.advance run clean
      refine ⟨d.current :: (ts ++ us), _, ?_, .loop kind derived derived', ?_, stops⟩
      · rw [tokens, tokens₁, List.cons_append, List.append_assoc]
      · simpa [Stmt.greedy] using greedy
    · next kind =>
      obtain ⟨tokens, ended₁⟩ := ended.advance (by simp [kind])
      change (andThen _ _ _).run d.advance.enterBlock = _ at run
      rw [run_andThen] at run
      cases body : (blockBody (declaration expr (statement expr fuel)) fuel).run
          d.advance.enterBlock with
      | error _ _ =>
        rw [body] at run
        cases run
      | ok _ d₁ =>
        rw [body] at run
        cases run
        have same := Draft.leaveBlock_sameReading d₁
        obtain ⟨ts, ds, closing, tokens₁, derived, greedy, kind'⟩ :=
          blockBody_derives (declaration_derives reads blames ih blames')
            (Blames.of_declaration blames blames') (d := d.advance.enterBlock) ended₁ sound.advance
            body (same.faults ▸ clean)
        refine ⟨_, _, ?_, .block kind derived kind', greedy, by simp [Stmt.dangling]⟩
        rw [tokens, become_eq, same.tokens, List.cons_append, List.append_assoc, List.singleton_append]
        exact congrArg _ tokens₁
    · obtain ⟨ts, e, semicolon, tokens, derived, kind⟩ := ended_derives reads ended run
      refine ⟨_, _, ?_, .expression derived kind, rfl, by simp [Stmt.dangling]⟩
      rw [tokens, List.append_assoc, List.singleton_append]

theorem declarations_derives {decl : Build Unit} (reads : DeclarationReads decl)
    (blames : Blames decl) {fuel : Nat} {d d' : Draft} (ended : d.Ended) (sound : d.Sound)
    (run : (declarations decl fuel).run d = .ok () d') (clean : d'.faults = []) :
    ∃ ts ds closing rest, d.tokens = ts ++ closing :: rest ∧ Grammar.Program ts ds ∧
      greedyAll ds ∧ closing.kind = .eof := by
  induction fuel generalizing d with
  | zero => cases run
  | succ fuel ih =>
    by_cases kind : d.current.kind = .eof
    · exact ⟨[], [], d.current, d.upcoming, rfl, .nil, rfl, kind⟩
    · simp only [declarations, act_eq, EStateM.run_bind, run_take, kind, if_false] at run
      obtain ⟨_, d₁, first, rest⟩ := run_bind_eq_ok.1 run
      have sound₁ := (blames.of_ok sound first).1
      have clean₁ := ((Blames.of_declarations blames fuel).of_ok sound₁ rest).2 clean
      obtain ⟨ts, x, tokens, derived, greedy⟩ := reads ended sound first clean₁
      obtain ⟨us, ds, closing, rest, tokens₁, derived', greedy', kind⟩ :=
        ih (ended.of_append tokens derived.running) sound₁ rest
      refine ⟨ts ++ us, x :: ds, closing, rest, ?_, .cons derived derived', ?_, kind⟩
      · rw [tokens, tokens₁, List.append_assoc]
      · simp [greedyAll, greedy, greedy']

end StackScript
