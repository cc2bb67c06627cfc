import StackScript.Proofs.Parsing.Agreement

/-! Statements are read as the grammar says. The token behind a condition must end it,
which is what a greedy tree has; the token behind a statement that could take a further
arm must not begin one. -/

namespace StackScript

open Build Grammar

def TokenKind.stopsBranch (k : TokenKind) : Prop := k ≠ .kwElif ∧ k ≠ .kwElse

def moreArms (expr stmt : Build Unit) (fuel : Nat) (exits : List Nat) : Build (List Nat) := do
  if ← take .kwElif then arms expr stmt fuel exits else pure exits

def lastArm (stmt : Build Unit) (exits : List Nat) : Build Unit := do
  if ← take .kwElse then stmt else pure ()
  patchAll exits.reverse

def branchRest (expr stmt : Build Unit) (fuel : Nat) (exits : List Nat) : Build Unit :=
  moreArms expr stmt fuel exits >>= lastArm stmt

theorem arms_succ (expr stmt : Build Unit) (fuel : Nat) (exits : List Nat) :
    arms expr stmt (fuel + 1) exits =
      arm expr stmt >>= fun exit => moreArms expr stmt fuel (exit :: exits) := by
  simp only [arms, arm, moreArms, act_eq, bind_assoc, pure_bind]

theorem ifStatement_eq (expr stmt : Build Unit) (fuel : Nat) :
    ifStatement expr stmt (fuel + 1) =
      arm expr stmt >>= fun exit => branchRest expr stmt fuel [exit] := by
  change arms expr stmt (fuel + 1) [] >>= lastArm stmt = _
  rw [arms_succ, bind_assoc]
  rfl

theorem run_branchRest_elif (expr stmt : Build Unit) (fuel : Nat) (exits : List Nat) {d : Draft}
    (kind : d.current.kind = .kwElif) :
    (branchRest expr stmt (fuel + 1) exits).run d =
      (arm expr stmt >>= fun exit => branchRest expr stmt fuel (exit :: exits)).run d.advance := by
  have more : (moreArms expr stmt (fuel + 1) exits).run d =
      (arms expr stmt (fuel + 1) exits).run d.advance := by
    rw [moreArms, EStateM.run_bind, run_take, if_pos kind]
    rfl
  rw [branchRest, EStateM.run_bind, more, arms_succ, ← EStateM.run_bind, bind_assoc]
  rfl

theorem run_branchRest_otherwise (expr stmt : Build Unit) (fuel : Nat) (exits : List Nat) {d : Draft}
    (kind : d.current.kind = .kwElse) :
    (branchRest expr stmt fuel exits).run d =
      (do stmt; patchAll exits.reverse : Build Unit).run d.advance := by
  simp [branchRest, moreArms, lastArm, kind]

theorem run_branchRest_done (expr stmt : Build Unit) (fuel : Nat) (exits : List Nat) {d : Draft}
    (stops : d.current.kind.stopsBranch) :
    (branchRest expr stmt fuel exits).run d = (patchAll exits.reverse).run d := by
  simp [branchRest, moreArms, lastArm, stops.1, stops.2]

theorem Blames.of_branchRest {expr stmt : Build Unit} (first : Blames expr) (second : Blames stmt)
    (fuel : Nat) (exits : List Nat) : Blames (branchRest expr stmt fuel exits) :=
  bind ((of_take _).bind fun _ => of_ite (of_arms first second _ _) (of_pure _)) fun _ =>
    (of_take _).bind fun _ => of_ite (second.bind fun _ => of_patchAll _) (of_patchAll _)

variable {n : Nat}

theorem Grammar.ends_condition {k : TokenKind} (start : k ∈ starts) (minus : k ≠ .minus) :
    Level.ofOperator k = .none ∧ k.isAssignment = false := by
  simp only [starts, operands, literals, List.mem_append, List.mem_cons, List.not_mem_nil,
    or_false] at start
  revert minus
  rcases start with ((rfl | rfl | rfl | rfl | rfl | rfl) | rfl | rfl | rfl | rfl) |
    rfl | rfl | rfl | rfl
  all_goals decide

def StatementParses (n : Nat) (ts : List Token) (s : Stmt) : Prop :=
  ∀ ⦃fuel : Nat⦄ ⦃d : Draft⦄ ⦃t : Token⦄ ⦃rest : List Token⦄, ts.length ≤ fuel → d.Sound →
    d.tokens = ts ++ t :: rest → (s.dangling → t.kind.stopsBranch) →
    Agrees ((statement (expression n .assignment) fuel).run d) (s.build.run d)

theorem arm_agrees {ts us rest : List Token} {c : Expr} {s : Stmt} {d : Draft} {t : Token}
    {fuel : Nat} (condition : Expression .assignment ts c) (body : Statement us s)
    (parses : StatementParses n us s) (minus : s.leading.kind ≠ .minus)
    (enough : ts.length < n) (enough' : us.length ≤ fuel) (sound : d.Sound)
    (tokens : d.tokens = ts ++ (us ++ t :: rest)) (stops : s.dangling → t.kind.stopsBranch) :
    Agrees ((arm (expression n .assignment) (statement (expression n .assignment) fuel)).run d)
      ((arm c.build s.build).run d) := by
  obtain ⟨vs, rfl, start⟩ := body.leading
  obtain ⟨low, plain⟩ := ends_condition start minus
  have blames := Blames.of_expression n .assignment
  have ended (skip : Nat) : Blames (do
      let exit ← emitJump .jump
      patchJump skip
      emit .pop
      return exit) :=
    (Blames.of_emitJump _).bind fun _ => (Blames.of_patchJump _).bind fun _ =>
      (Blames.of_emit _).bind fun _ => Blames.of_pure _
  have bodied (skip : Nat) := (Blames.of_statement blames fuel).bind fun _ => ended skip
  have popped (skip : Nat) := (Blames.of_emit .pop).bind fun _ => bodied skip
  refine Agrees.bind (.of_eq (condition.agrees enough tokens low plain) blames sound) ?_
    fun _ => (Blames.of_emitJump _).bind popped
  intro _ d₁ run
  have sound₁ := condition.takes.sound tokens (by simp) sound run
  obtain ⟨tokens₁, _, _⟩ := condition.takes tokens (by simp) run
  refine Agrees.step (Takes.of_emitJump _) (Blames.of_emitJump _) sound₁ ?_ popped
  intro skip d₂ tokens₂ sound₂
  refine Agrees.step (Takes.of_emit _) (Blames.of_emit _) sound₂ ?_ fun _ => bodied skip
  intro _ d₃ tokens₃ sound₃
  have tokens₄ := tokens₃.trans (tokens₂.trans tokens₁)
  refine Agrees.bind (parses enough' sound₃ tokens₄ stops) ?_ fun _ => ended skip
  intro _ d₄ run'
  exact .of_eq rfl (ended skip) (body.takes.sound tokens₄ (by simp) sound₃ run')

theorem while_agrees {ts us rest : List Token} {c : Expr} {s : Stmt} {d : Draft} {t : Token}
    {fuel : Nat} (condition : Expression .assignment ts c) (body : Statement us s)
    (parses : StatementParses n us s) (minus : s.leading.kind ≠ .minus)
    (enough : ts.length < n) (enough' : us.length ≤ fuel) (sound : d.Sound)
    (tokens : d.tokens = ts ++ (us ++ t :: rest)) (stops : s.dangling → t.kind.stopsBranch) :
    Agrees ((whileStatement (expression n .assignment)
        (statement (expression n .assignment) fuel)).run d)
      ((whileStatement c.build s.build).run d) := by
  obtain ⟨vs, rfl, start⟩ := body.leading
  obtain ⟨low, plain⟩ := ends_condition start minus
  have blames := Blames.of_expression n .assignment
  have ended (start exit : Nat) : Blames (do
      emitLoop start
      patchJump exit
      emit .pop) :=
    (Blames.of_emitLoop _).bind fun _ => (Blames.of_patchJump _).bind fun _ => Blames.of_emit _
  have bodied (start exit : Nat) := (Blames.of_statement blames fuel).bind fun _ => ended start exit
  have popped (start exit : Nat) := (Blames.of_emit .pop).bind fun _ => bodied start exit
  have jumped (start : Nat) := (Blames.of_emitJump .jumpFalse).bind (popped start)
  refine Agrees.step Takes.of_get Blames.of_get sound ?_ fun _ => blames.bind fun _ => jumped _
  intro d₀ d' tokens₀ sound₀
  rw [tokens] at tokens₀
  refine Agrees.bind (.of_eq (condition.agrees enough tokens₀ low plain) blames sound₀) ?_
    fun _ => jumped _
  intro _ d₁ run
  have sound₁ := condition.takes.sound tokens₀ (by simp) sound₀ run
  obtain ⟨tokens₁, _, _⟩ := condition.takes tokens₀ (by simp) run
  refine Agrees.step (Takes.of_emitJump _) (Blames.of_emitJump _) sound₁ ?_ (popped _)
  intro exit d₂ tokens₂ sound₂
  refine Agrees.step (Takes.of_emit _) (Blames.of_emit _) sound₂ ?_ fun _ => bodied _ exit
  intro _ d₃ tokens₃ sound₃
  have tokens₄ := tokens₃.trans (tokens₂.trans tokens₁)
  refine Agrees.bind (parses enough' sound₃ tokens₄ stops) ?_ fun _ => ended _ exit
  intro _ d₄ run'
  exact .of_eq rfl (ended _ exit) (body.takes.sound tokens₄ (by simp) sound₃ run')

theorem declaration_agrees {expr stmt : Build Unit} {ts rest : List Token} {x : Decl} {d : Draft}
    {t : Token} (derived : Declaration ts x) (tokens : d.tokens = ts ++ t :: rest)
    (h : Agrees ((do if ← take .kwLet then letDeclaration expr else stmt : Build Unit).run d)
      (x.body.run d)) : Agrees ((declaration expr stmt).run d) (x.build.run d) := by
  rw [run_declaration, Decl.build, run_marked]
  cases run : x.body.run d with
  | ok _ d' =>
    obtain ⟨us, leading, _⟩ := derived.leading
    have current : d.current = x.leading := by
      rw [leading] at tokens
      exact Draft.current_of_tokens tokens
    obtain ⟨_, _, _, previous⟩ := derived.takes tokens (List.cons_ne_nil _ _) run
    rw [derived.trailing] at previous
    rw [run] at h
    rw [show _ = EStateM.Result.ok () d' from h]
    change EStateM.Result.ok () _ = EStateM.Result.ok () _
    rw [current, previous]
    rfl
  | error e d' =>
    rw [run] at h
    revert h
    cases (do if ← take .kwLet then letDeclaration expr else stmt : Build Unit).run d with
    | ok _ d₁ | error _ d₁ => exact id

theorem run_declare_congr {x y : Build Unit} {d : Draft} {name : Token} {ts : List Token}
    (tokens : d.tokens = ts) (same : ∀ d : Draft, d.tokens = ts → x.run d = y.run d) :
    (declare name x).run d = (declare name y).run d := by
  simp only [declare, EStateM.run_bind, EStateM.run_get]
  split
  · rw [EStateM.run_bind, EStateM.run_bind, same d tokens]
  · split
    · rfl
    · cases d.scope.declare? name.lexeme with
      | none => rfl
      | some scope =>
        refine run_bind_congr rfl fun _ d₁ run => ?_
        cases run
        rw [run_andThen, run_andThen, same { d with scope } tokens]

theorem run_letDeclaration {expr value : Build Unit} {d : Draft} {name : Token} {ts : List Token}
    (tokens : d.tokens = name :: ts) (kind : name.kind = .identifier) (more : ts ≠ [])
    (same : ∀ d : Draft, d.tokens = ts → (initializer expr).run d = value.run d) :
    (letDeclaration expr).run d = (do advance; declare name value : Build Unit).run d := by
  refine run_bind_congr (run_expect_of_tokens tokens kind) fun _ d₁ run => ?_
  cases run
  have tokens₁ : d.advance.tokens = ts := Draft.tokens_advance tokens (by simp [kind]) more
  rw [EStateM.run_bind, act_eq, run_previous, Draft.advance_previous, Draft.current_of_tokens tokens]
  exact run_declare_congr tokens₁ same

theorem run_initializer_none {n : Nat} {d : Draft} {semicolon : Token} {ts : List Token}
    (tokens : d.tokens = semicolon :: ts) (kind : semicolon.kind = .semicolon) :
    (initializer (expression n .assignment)).run d =
      (do emit .pushNone; advance : Build Unit).run d := by
  have current := Draft.current_of_tokens tokens
  have tokens' : (d.emit .pushNone).tokens = semicolon :: ts := tokens
  simp only [initializer, act_eq, EStateM.run_bind, run_take, current, kind, reduceCtorEq, if_false,
    Bool.false_eq_true, run_emit]
  exact run_expect_of_tokens tokens' kind

theorem Grammar.Expression.run_initializer {n : Nat} {ts rest : List Token} {e : Expr} {d : Draft}
    {equals semicolon : Token} (h : Expression .assignment ts e) (kind : equals.kind = .assign)
    (kind' : semicolon.kind = .semicolon) (enough : ts.length < n)
    (tokens : d.tokens = equals :: (ts ++ semicolon :: rest)) :
    (initializer (expression n .assignment)).run d =
      (do advance; e.build; advance : Build Unit).run d := by
  have tokens' := Draft.tokens_advance tokens (by simp [kind]) (by simp)
  simp only [initializer, act_eq, EStateM.run_bind, run_take, Draft.current_of_tokens tokens, kind, if_true]
  have run := h.run_ended enough tokens' kind' (.expectedSemicolon "variable declaration") (pure ())
  simpa only [bind_pure_unit, EStateM.run_bind, run_advance] using run

/-- A loop that reads declarations up to a closing token, which it reads too. -/
structure ReadsAll (decl : Build Unit) (closing : Token) (loop : Nat → Build Unit) : Prop where
  nil : ∀ (k : Nat) (d : Draft), d.current = closing → (loop (k + 1)).run d = advance.run d
  cons : ∀ (k : Nat) (d : Draft), d.current.kind ∈ .kwLet :: starts →
    (loop (k + 1)).run d = (do decl; loop k : Build Unit).run d
  blames : ∀ k, Blames (loop k)
  stops : closing.kind.stopsBranch

theorem Grammar.stopsBranch_of_start {k : TokenKind} (start : k ∈ .kwLet :: starts) :
    k.stopsBranch :=
  ⟨ne_of_mem_of_not_mem start (by decide), ne_of_mem_of_not_mem start (by decide)⟩

theorem ReadsAll.of_blockBody {decl : Build Unit} {closing : Token} (blames : Blames decl)
    (kind : closing.kind = .rightBrace) : ReadsAll decl closing (blockBody decl) where
  nil k d current := by
    simp only [blockBody, act_eq, EStateM.run_bind, run_current, current, kind, decide_true, Bool.true_or,
      if_true]
    rw [run_expect, current, if_pos kind, run_advance]
  cons k d start := by
    have brace := ne_of_mem_of_not_mem start (by decide : TokenKind.rightBrace ∉ .kwLet :: starts)
    have eof := ne_of_mem_of_not_mem start (by decide : TokenKind.eof ∉ .kwLet :: starts)
    simp [blockBody, brace, eof]
  blames := Blames.of_blockBody blames
  stops := by simp [kind, TokenKind.stopsBranch]

theorem ReadsAll.of_declarations {decl : Build Unit} {closing : Token} (blames : Blames decl)
    (kind : closing.kind = .eof) : ReadsAll decl closing (declarations decl) where
  nil k d current := by
    simp [declarations, current, kind]
  cons k d start := by
    have eof := ne_of_mem_of_not_mem start (by decide : TokenKind.eof ∉ .kwLet :: starts)
    simp [declarations, eof]
  blames := Blames.of_declarations blames
  stops := by simp [kind, TokenKind.stopsBranch]

theorem run_statement_expression {expr : Build Unit} {fuel : Nat} {d : Draft}
    (kind : d.current.kind ∈ operands) :
    (statement expr (fuel + 1)).run d = (expressionStatement expr).run d := by
  simp only [statement, act_eq, EStateM.run_bind, run_current]
  split
  · next h => exact absurd (h ▸ kind) (by decide)
  · next h => exact absurd (h ▸ kind) (by decide)
  · next h => exact absurd (h ▸ kind) (by decide)
  · next h => exact absurd (h ▸ kind) (by decide)
  · rfl

theorem run_take_let {expr stmt : Build Unit} {d : Draft} (kind : d.current.kind ∈ starts) :
    (do if ← take .kwLet then letDeclaration expr else stmt : Build Unit).run d = stmt.run d := by
  have other := ne_of_mem_of_not_mem kind (by decide : TokenKind.kwLet ∉ starts)
  simp [other]

theorem run_take_let' {expr stmt : Build Unit} {d : Draft} (kind : d.current.kind = .kwLet) :
    (do if ← take .kwLet then letDeclaration expr else stmt : Build Unit).run d =
      (do advance; letDeclaration expr : Build Unit).run d := by
  simp [kind]

def RestParses (n : Nat) (ts : List Token) (r : Rest) : Prop :=
  ∀ ⦃fuel m : Nat⦄ ⦃d : Draft⦄ ⦃t : Token⦄ ⦃rest : List Token⦄ (exits : List Nat),
    ts.length ≤ fuel → ts.length ≤ m → d.Sound → d.tokens = ts ++ t :: rest →
    (r.dangling → t.kind.stopsBranch) →
    Agrees ((branchRest (expression n .assignment) (statement (expression n .assignment) fuel) m
      exits).run d) ((r.build exits).run d)

def DeclarationParses (n : Nat) (ts : List Token) (x : Decl) : Prop :=
  ∀ ⦃fuel : Nat⦄ ⦃d : Draft⦄ ⦃t : Token⦄ ⦃rest : List Token⦄, ts.length ≤ fuel → d.Sound →
    d.tokens = ts ++ t :: rest → t.kind.stopsBranch →
    Agrees ((declaration (expression n .assignment)
      (statement (expression n .assignment) fuel)).run d) (x.build.run d)

def ProgramParses (n : Nat) (ts : List Token) (ds : List Decl) : Prop :=
  ∀ ⦃fuel k : Nat⦄ ⦃d : Draft⦄ ⦃closing : Token⦄ ⦃rest : List Token⦄ ⦃loop : Nat → Build Unit⦄,
    ReadsAll (declaration (expression n .assignment)
      (statement (expression n .assignment) fuel)) closing loop →
    ts.length ≤ fuel → ts.length < k → d.Sound → d.tokens = ts ++ closing :: rest →
    Agrees ((loop k).run d) ((do buildAll ds; advance : Build Unit).run d)

theorem Draft.Sound.advance {d : Draft} (h : d.Sound) : d.advance.Sound := by
  obtain ⟨faults, recovering⟩ := d.advance_faults
  rwa [Sound, faults, recovering]

theorem parses_print {word semicolon : Token} {ts : List Token} {e : Expr}
    (kind : word.kind = .kwPrint) (value : Expression .assignment ts e)
    (kind' : semicolon.kind = .semicolon) (short : ts.length < n) :
    StatementParses n (word :: (ts ++ [semicolon])) (.print word e semicolon) := by
  intro fuel d t rest enough sound tokens _
  cases fuel with
  | zero => simp at enough
  | succ fuel =>
    refine .of_eq ?_ (Blames.of_statement (Blames.of_expression _ _) _) sound
    rw [List.cons_append, List.append_assoc] at tokens
    have tokens' := Draft.tokens_advance tokens (by simp [kind]) (by simp)
    simp only [statement, act_eq, EStateM.run_bind, run_current, Draft.current_of_tokens tokens, kind]
    exact value.run_ended short tokens' kind' _ _

theorem parses_expression {semicolon : Token} {ts : List Token} {e : Expr}
    (value : Expression .assignment ts e) (kind : semicolon.kind = .semicolon)
    (short : ts.length < n) : StatementParses n (ts ++ [semicolon]) (.expression e semicolon) := by
  intro fuel d t rest enough sound tokens _
  cases fuel with
  | zero => simp at enough
  | succ fuel =>
    refine .of_eq ?_ (Blames.of_statement (Blames.of_expression _ _) _) sound
    rw [List.append_assoc] at tokens
    obtain ⟨us, leading, start⟩ := value.leading
    have current : d.current = e.leading := by
      rw [leading] at tokens
      exact Draft.current_of_tokens tokens
    rw [run_statement_expression (by rwa [current])]
    exact value.run_ended short tokens kind _ _

theorem arm_rest_agrees {ts us vs rest : List Token} {c : Expr} {s : Stmt} {r : Rest} {d : Draft}
    {t : Token} {fuel m : Nat} (condition : Expression .assignment ts c) (body : Statement us s)
    (more : Continuation vs r) (dangling : vs ≠ [] → s.dangling = false)
    (parses : StatementParses n us s) (parses' : RestParses n vs r)
    (minus : s.leading.kind ≠ .minus) (short : (ts ++ (us ++ vs)).length < n)
    (enough : (ts ++ (us ++ vs)).length ≤ fuel) (enough' : vs.length ≤ m)
    (sound : d.Sound) (tokens : d.tokens = (ts ++ (us ++ vs)) ++ t :: rest)
    (stops : r.dangling → t.kind.stopsBranch) (exits : List Nat) :
    Agrees ((arm (expression n .assignment) (statement (expression n .assignment) fuel) >>=
        fun exit => branchRest (expression n .assignment)
          (statement (expression n .assignment) fuel) m (exit :: exits)).run d)
      ((arm c.build s.build >>= fun exit => r.build (exit :: exits)).run d) := by
  simp only [List.length_append] at short enough
  have blames := Blames.of_expression n .assignment
  obtain ⟨t', rest', next, stops'⟩ : ∃ t' rest', vs ++ t :: rest = t' :: rest' ∧
      (s.dangling → t'.kind.stopsBranch) := by
    cases vs with
    | nil =>
      refine ⟨t, rest, rfl, fun _ => stops ?_⟩
      cases more
      rfl
    | cons v vs => exact ⟨v, vs ++ t :: rest, rfl, fun h => by simp [dangling] at h⟩
  have tokens' : d.tokens = ts ++ (us ++ t' :: rest') := by
    rw [tokens, ← next]
    simp only [List.append_assoc]
  have takes := Takes.of_arm condition.takes body.takes
  have tokens'' : d.tokens = (ts ++ us) ++ t' :: rest' := by rw [tokens', List.append_assoc]
  refine Agrees.bind (arm_agrees condition body parses minus (by omega) (by omega) sound tokens'
    stops') (fun exit d₁ run => ?_)
    fun _ => Blames.of_branchRest blames (Blames.of_statement blames _) _ _
  obtain ⟨tokens₁, _, _⟩ := takes tokens'' (by simp) run
  exact parses' _ (by omega) (by omega) (takes.sound tokens'' (by simp) sound run)
    (tokens₁.trans next.symm) stops

theorem parses_branch {word : Token} {ts us vs : List Token} {c : Expr} {s : Stmt} {r : Rest}
    (kind : word.kind = .kwIf) (condition : Expression .assignment ts c) (body : Statement us s)
    (more : Continuation vs r) (dangling : vs ≠ [] → s.dangling = false)
    (minus : s.leading.kind ≠ .minus) (short : (ts ++ (us ++ vs)).length < n)
    (parses : StatementParses n us s) (parses' : RestParses n vs r) :
    StatementParses n (word :: (ts ++ (us ++ vs))) (.branch word c s r) := by
  intro fuel d t rest enough sound tokens stops
  cases fuel with
  | zero => simp at enough
  | succ fuel =>
    rw [List.cons_append] at tokens
    have tokens' := Draft.tokens_advance tokens (by simp [kind]) (by simp)
    have enough' : (ts ++ (us ++ vs)).length ≤ fuel := by simpa using enough
    -- The condition is not empty, so there is fuel for its arm.
    have positive : 0 < ts.length := by
      obtain ⟨_, rfl, _⟩ := condition.leading
      exact Nat.succ_pos _
    obtain ⟨m, rfl⟩ : ∃ m, fuel = m + 1 :=
      ⟨fuel - 1, by simp only [List.length_append] at enough'; omega⟩
    simp only [statement, act_eq, EStateM.run_bind, run_current, Draft.current_of_tokens tokens, kind,
      ifStatement_eq]
    exact arm_rest_agrees condition body more dangling parses parses' minus short
      enough' (by simp only [List.length_append] at enough'; omega) sound.advance tokens' stops []

theorem parses_loop {word : Token} {ts us : List Token} {c : Expr} {s : Stmt}
    (kind : word.kind = .kwWhile) (condition : Expression .assignment ts c) (body : Statement us s)
    (minus : s.leading.kind ≠ .minus) (short : ts.length < n) (parses : StatementParses n us s) :
    StatementParses n (word :: (ts ++ us)) (.loop word c s) := by
  intro fuel d t rest enough sound tokens stops
  cases fuel with
  | zero => simp at enough
  | succ fuel =>
    simp only [List.length_cons, List.length_append] at enough
    rw [List.cons_append, List.append_assoc] at tokens
    have tokens' := Draft.tokens_advance tokens (by simp [kind]) (by simp)
    simp only [statement, act_eq, EStateM.run_bind, run_current, Draft.current_of_tokens tokens, kind]
    exact while_agrees condition body parses minus short (by omega) sound.advance tokens' stops

theorem parses_block {opening closing : Token} {ts : List Token} {ds : List Decl}
    (kind : opening.kind = .leftBrace) (kind' : closing.kind = .rightBrace)
    (parses : ProgramParses n ts ds) :
    StatementParses n (opening :: (ts ++ [closing])) (.block opening ds closing) := by
  intro fuel d t rest enough sound tokens _
  cases fuel with
  | zero => simp at enough
  | succ fuel =>
    simp only [List.length_cons, List.length_append] at enough
    rw [List.cons_append, List.append_assoc] at tokens
    have tokens' := Draft.tokens_advance tokens (by simp [kind]) (by simp)
    have blames := Blames.of_expression n .assignment
    have reads := ReadsAll.of_blockBody
      (Blames.of_declaration blames (Blames.of_statement blames fuel)) kind'
    have agrees := @parses fuel fuel d.advance.enterBlock closing (t :: rest) _ reads
      (by omega) (by omega) sound.advance tokens'
    simp only [statement, act_eq, EStateM.run_bind, run_current, Draft.current_of_tokens tokens, kind]
    have done := agrees.andThen (o := .action) fun d => (Draft.leaveBlock_sameReading d).faults
    simp only [bind_assoc] at done
    exact done

theorem parses_done : RestParses n [] .done := by
  intro fuel m d t rest exits _ _ sound tokens stops
  have blames := Blames.of_expression n .assignment
  refine .of_eq ?_ (Blames.of_branchRest blames (Blames.of_statement blames _) _ _) sound
  rw [run_branchRest_done _ _ _ _ (by rw [Draft.current_of_tokens tokens]; exact stops rfl)]
  rfl

theorem parses_elif {word : Token} {ts us vs : List Token} {c : Expr} {s : Stmt} {r : Rest}
    (kind : word.kind = .kwElif) (condition : Expression .assignment ts c) (body : Statement us s)
    (more : Continuation vs r) (dangling : vs ≠ [] → s.dangling = false)
    (minus : s.leading.kind ≠ .minus) (short : (ts ++ (us ++ vs)).length < n)
    (parses : StatementParses n us s) (parses' : RestParses n vs r) :
    RestParses n (word :: (ts ++ (us ++ vs))) (.elif word c s r) := by
  intro fuel m d t rest exits enough enough' sound tokens stops
  cases m with
  | zero => simp at enough'
  | succ m =>
    rw [List.cons_append] at tokens
    have tokens' := Draft.tokens_advance tokens (by simp [kind]) (by simp)
    simp only [List.length_cons] at enough enough'
    rw [run_branchRest_elif _ _ _ _ (by rw [Draft.current_of_tokens tokens]; exact kind)]
    exact arm_rest_agrees condition body more dangling parses parses' minus short (by omega)
      (by simp only [List.length_append] at enough'; omega) sound.advance tokens' stops exits

theorem parses_otherwise {word : Token} {ts : List Token} {s : Stmt} (kind : word.kind = .kwElse)
    (body : Statement ts s) (parses : StatementParses n ts s) :
    RestParses n (word :: ts) (.otherwise word s) := by
  intro fuel m d t rest exits enough _ sound tokens stops
  rw [List.cons_append] at tokens
  have tokens' := Draft.tokens_advance tokens (by simp [kind]) (by simp)
  simp only [List.length_cons] at enough
  rw [run_branchRest_otherwise _ _ _ _ (by rw [Draft.current_of_tokens tokens]; exact kind)]
  refine Agrees.bind (parses (by omega) sound.advance tokens' stops) (fun _ d₁ run => ?_)
    fun _ => Blames.of_patchAll _
  exact .of_eq rfl (Blames.of_patchAll _) (body.takes.sound tokens' (by simp) sound.advance run)

theorem parses_let {word name : Token} {ts : List Token} {value : Build Unit} {x : Decl}
    (derived : Declaration (word :: name :: ts) x) (kind : word.kind = .kwLet)
    (kind' : name.kind = .identifier) (body : x.body = (do advance; advance; declare name value))
    (same : ∀ (d : Draft) (rest : List Token), d.tokens = ts ++ rest →
      (initializer (expression n .assignment)).run d = value.run d) :
    DeclarationParses n (word :: name :: ts) x := by
  intro fuel d t rest _ sound tokens _
  refine declaration_agrees derived tokens (.of_eq ?_ ?_ sound)
  · rw [body, run_take_let' (by rw [Draft.current_of_tokens tokens]; exact kind)]
    have tokens' := Draft.tokens_advance tokens (by simp [kind]) (by simp)
    exact run_letDeclaration tokens' kind' (by simp) fun d tokens => same d _ tokens
  · have blames := Blames.of_expression n .assignment
    exact (Blames.of_take _).bind fun _ =>
      Blames.of_ite (Blames.of_letDeclaration blames) (Blames.of_statement blames _)

theorem parses_statement {ts : List Token} {s : Stmt} (body : Statement ts s)
    (parses : StatementParses n ts s) : DeclarationParses n ts (.statement s) := by
  intro fuel d t rest enough sound tokens stops
  refine declaration_agrees (.statement body) tokens ?_
  obtain ⟨us, leading, start⟩ := body.leading
  have current : d.current = s.leading := by
    rw [leading] at tokens
    exact Draft.current_of_tokens tokens
  rw [run_take_let (by rwa [current])]
  exact parses enough sound tokens fun _ => stops

theorem parses_nil : ProgramParses n [] [] := by
  intro fuel k d closing rest loop reads _ enough sound tokens
  obtain ⟨k, rfl⟩ : ∃ j, k = j + 1 := ⟨k - 1, by simp at enough; omega⟩
  exact .of_eq (reads.nil k d (Draft.current_of_tokens tokens)) (reads.blames _) sound

theorem parses_cons {ts us : List Token} {x : Decl} {ds : List Decl} (first : Declaration ts x)
    (second : Grammar.Program us ds) (parses : DeclarationParses n ts x) (parses' : ProgramParses n us ds) :
    ProgramParses n (ts ++ us) (x :: ds) := by
  intro fuel k d closing rest loop reads enough enough' sound tokens
  simp only [List.length_append] at enough enough'
  rw [List.append_assoc] at tokens
  obtain ⟨vs, leading, start⟩ := first.leading
  have positive : 0 < ts.length := by simp [leading]
  obtain ⟨k, rfl⟩ : ∃ j, k = j + 1 := ⟨k - 1, by omega⟩
  have current : d.current = x.leading := by
    rw [leading] at tokens
    exact Draft.current_of_tokens tokens
  -- Behind the declaration stands another one or the closing token.
  obtain ⟨t', rest', next, stops⟩ : ∃ t' rest', us ++ closing :: rest = t' :: rest' ∧
      t'.kind.stopsBranch := by
    cases second with
    | nil => exact ⟨closing, rest, rfl, reads.stops⟩
    | cons second _ =>
      obtain ⟨_, rfl, start'⟩ := second.leading
      exact ⟨_, _, rfl, stopsBranch_of_start start'⟩
  rw [reads.cons k d (by rwa [current]), buildAll_cons, bind_assoc]
  rw [next] at tokens
  refine Agrees.bind (parses (by omega) sound tokens stops) (fun _ d₁ run => ?_)
    fun _ => reads.blames _
  have takes := Takes.of_marked x.span first.takes
  obtain ⟨tokens₁, _, _⟩ := takes tokens (by simp) run
  exact parses' reads (by omega) (by omega) (takes.sound tokens (by simp) sound run)
    (tokens₁.trans next.symm)

mutual

theorem Grammar.Statement.parses {ts : List Token} {s : Stmt} :
    Statement ts s → s.greedy → ts.length ≤ n → StatementParses n ts s
  | .print word e semicolon, _, short =>
    parses_print word e semicolon (by simp at short; omega)
  | .expression e semicolon, _, short => parses_expression e semicolon (by simp at short; omega)
  | .branch word c s r dangling, greedy, short => by
    simp only [Stmt.greedy, Bool.and_eq_true, decide_eq_true_eq] at greedy
    simp only [List.length_cons, List.length_append] at short
    exact parses_branch word c s r dangling greedy.1.1 (by simp only [List.length_append]; omega)
      (s.parses greedy.1.2 (by omega)) (r.parses greedy.2 (by omega))
  | .loop word c s, greedy, short => by
    simp only [Stmt.greedy, Bool.and_eq_true, decide_eq_true_eq] at greedy
    simp only [List.length_cons, List.length_append] at short
    exact parses_loop word c s greedy.1 (by omega) (s.parses greedy.2 (by omega))
  | .block opening ds closing, greedy, short =>
    parses_block opening closing (ds.parses greedy (by simp at short; omega))

theorem Grammar.Continuation.parses {ts : List Token} {r : Rest} :
    Continuation ts r → r.greedy → ts.length ≤ n → RestParses n ts r
  | .done, _, _ => parses_done
  | .elif word c s r dangling, greedy, short => by
    simp only [Rest.greedy, Bool.and_eq_true, decide_eq_true_eq] at greedy
    simp only [List.length_cons, List.length_append] at short
    exact parses_elif word c s r dangling greedy.1.1 (by simp only [List.length_append]; omega)
      (s.parses greedy.1.2 (by omega)) (r.parses greedy.2 (by omega))
  | .otherwise word s, greedy, short =>
    parses_otherwise word s (s.parses greedy (by simp at short; omega))

theorem Grammar.Declaration.parses {ts : List Token} {x : Decl} :
    Declaration ts x → x.greedy → ts.length ≤ n → DeclarationParses n ts x
  | .bind word name semicolon, _, _ =>
    parses_let (.bind word name semicolon) word name rfl fun _ _ tokens => run_initializer_none tokens semicolon
  | .bindTo word name equals e semicolon, _, short =>
    parses_let (.bindTo word name equals e semicolon) word name rfl fun _ _ tokens =>
      e.run_initializer equals semicolon (by simp at short; omega) (by simpa using tokens)
  | .statement s, greedy, short => parses_statement s (s.parses greedy short)

theorem Grammar.Program.parses {ts : List Token} {ds : List Decl} :
    Program ts ds → greedyAll ds → ts.length ≤ n → ProgramParses n ts ds
  | .nil, _, _ => parses_nil
  | .cons first second, greedy, short => by
    simp only [greedyAll, Bool.and_eq_true] at greedy
    simp only [List.length_append] at short
    exact parses_cons first second (first.parses greedy.1 (by omega))
      (second.parses greedy.2 (by omega))

end

end StackScript
