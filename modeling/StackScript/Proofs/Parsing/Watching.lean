import StackScript.Proofs.Parsing.Pairing

/-! A compilation side by side with one that is watched. What an expression or a simple statement
does is done to both, and the pairing of their drafts outlasts it. The fuel does not run out on the
way, because a token is read before every call. -/

namespace StackScript

open Build Carrier

/-- One call on a declaration: the draft before it and the draft when its body ended, well or given
up. -/
structure Activation where
  before : Draft
  after : Draft
  givenUp : Bool

/-- A draft and the declarations that have come to an end, in order. -/
structure Watch where
  draft : Draft
  journal : List Activation := []

/-- The end of a declaration is entered in the journal. -/
instance : Carrier Watch where
  draft := Watch.draft
  see o d w :=
    { draft := d
      journal := match o with
        | .ended before givenUp => w.journal ++ [⟨before, w.draft, givenUp⟩]
        | _ => w.journal }
  act x w :=
    match x.run w.draft with
    | .ok a d => .ok a { w with draft := d }
    | .error e d => .error e { w with draft := d }
  stuck d := d.report d.current .tooDeep
  draft_see _ _ _ := rfl
  run_act _ _ := rfl

abbrev Watched := Compiling Watch

namespace Pairing

variable {p : Pairing} {α β γ δ : Type} {σ : Type} [Carrier σ]

/-- How a compilation and a watched one go on from two drafts while no declaration ends. -/
def Course (p : Pairing) (d : Draft) (w : Watch) (B : α → β → Draft → Draft → Prop) :
    EStateM.Result GivenUp σ α → EStateM.Result GivenUp Watch β → Prop :=
  Ends (fun a b s w' => d.Leads (draft s) ∧ w.draft.Leads w'.draft ∧ w'.journal = w.journal ∧
      B a b (draft s) w'.draft)
    (fun s w' => d.Onto (draft s) ∧ w.draft.Onto w'.draft ∧ w'.journal = w.journal ∧
      p.lost (draft s) w'.draft)

theorem Course.after {d d₁ : Draft} {w w₁ : Watch} {B : α → β → Draft → Draft → Prop}
    {r : EStateM.Result GivenUp σ α} {r' : EStateM.Result GivenUp Watch β}
    (h : p.Course d₁ w₁ B r r') (left : d.Leads d₁) (right : w.draft.Leads w₁.draft)
    (same : w₁.journal = w.journal) : p.Course d w B r r' := by
  refine h.imp ?_ ?_
  · rintro a b s w' ⟨leads, leads', same', after⟩
    exact ⟨left.trans leads, right.trans leads', same'.trans same, after⟩
  · rintro s w' ⟨onto, onto', same', lost⟩
    exact ⟨left.toOnto.trans onto, right.toOnto.trans onto', same'.trans same, lost⟩

/-- Two parsers keep a compilation and a watched one in step that have not too much to read. -/
def InStep (p : Pairing) (n m : Nat) (A : Draft → Draft → Prop) (x : Compiling σ α)
    (y : Compiling Watch β) (B : α → β → Draft → Draft → Prop) : Prop :=
  ∀ ⦃s w⦄, (draft s).Left n → w.draft.Left m → A (draft s) w.draft →
    p.Course (draft s) w B (x.run s) (y.run w)

theorem Acts.inStep {n m : Nat} {A : Draft → Draft → Prop} {x : Build α} {y : Build β}
    {B : α → β → Draft → Draft → Prop} (h : p.Acts n m A x y B) :
    p.InStep n m A (act x : Compiling σ α) (act y) B := by
  intro s w left right before
  have outcome := h left right before
  rw [Carrier.run_act, Carrier.run_act]
  revert outcome
  change p.Outcome _ _ _ _ (y.run w.draft) → p.Course _ _ _ _ (match y.run w.draft with
    | .ok a d => .ok a (Carrier.see .action d w)
    | .error e d => .error e (Carrier.see .action d w))
  generalize x.run (draft s) = r, y.run w.draft = r'
  intro outcome
  cases r <;> cases r'
  · obtain ⟨leads, leads', after⟩ := outcome
    refine ⟨?_, leads', rfl, ?_⟩
    all_goals rwa [draft_see]
  · exact outcome
  · exact outcome
  · obtain ⟨onto, onto', lost⟩ := outcome
    refine ⟨?_, onto', rfl, ?_⟩
    all_goals rwa [draft_see]

namespace InStep

variable {n m n' m' : Nat} {A A' : Draft → Draft → Prop} {B : α → β → Draft → Draft → Prop}
  {C : γ → δ → Draft → Draft → Prop} {x : Compiling σ α} {y : Compiling Watch β}

theorem bind {f : α → Compiling σ γ} {g : β → Compiling Watch δ} (first : p.InStep n m A x y B)
    (second : ∀ a b, p.InStep n m (B a b) (f a) (g b) C) :
    p.InStep n m A (x >>= f) (y >>= g) C := by
  intro s w left right h
  refine Ends.bind (first left right h) ?_
  rintro a b s' w' ⟨leads, leads', same, after⟩
  exact (second a b (leads.left.mono left.count) (leads'.left.mono right.count) after).after leads
    leads' same

theorem mono (h : p.InStep n m A x y B) (left : n' ≤ n) (right : m' ≤ m) :
    p.InStep n' m' A x y B :=
  fun _ _ few few' before => h (few.mono left) (few'.mono right) before

theorem narrow (h : p.InStep n' m' A x y B) :
    p.InStep n m (fun d e => (d.Left n' ∧ e.Left m') ∧ A d e) x y B :=
  fun _ _ _ _ before => h before.1.1 before.1.2 before.2

theorem imp (h : p.InStep n m A x y B) (stronger : ∀ d e, A' d e → A d e) : p.InStep n m A' x y B :=
  fun _ _ few few' before => h few few' (stronger _ _ before)

theorem of_pure {a : α} {b : β} (h : ∀ d e, A d e → B a b d e) :
    p.InStep n m A (pure a : Compiling σ α) (pure b) B :=
  fun _ _ left right before => ⟨.refl left, .refl right, rfl, h _ _ before⟩

theorem assume {Q : Prop} (fact : ∀ d e, A d e → Q) (h : Q → p.InStep n m A x y B) :
    p.InStep n m A x y B :=
  fun _ _ left right before => h (fact _ _ before) left right before

def Kept (K : Draft → Draft → Prop) : Prop :=
  ∀ ⦃d d' e e'⦄, K d e → d.Leads d' → e.Leads e' → K d' e'

theorem Kept.and {K L : Draft → Draft → Prop} (h : Kept K) (h' : Kept L) :
    Kept fun d e => K d e ∧ L d e :=
  fun _ _ _ _ held left right => ⟨h held.1 left right, h' held.2 left right⟩

theorem kept_known (laws : p.Laws) (t u : Token) : Kept fun d e => p.known d e t u :=
  fun _ _ _ _ known left right => laws.keep known left right

theorem keep {K : Draft → Draft → Prop} (h : p.InStep n m A x y B) (kept : Kept K) :
    p.InStep n m (fun d e => A d e ∧ K d e) x y (fun a b d e => B a b d e ∧ K d e) := by
  rintro s w left right ⟨before, held⟩
  refine Ends.imp (h left right before) ?_ fun _ _ => id
  rintro a b s' w' ⟨leads, leads', same, after⟩
  exact ⟨leads, leads', same, after, kept held leads leads'⟩

end InStep

open InStep

theorem plain_of_compound {assignable : Bool} {k : TokenKind} {op : Opcode}
    (h : (if assignable then Opcode.ofCompound? k else none) = some op) :
    k ≠ .semicolon ∧ k ≠ .eof ∧ k.needs = 0 := by
  cases assignable with
  | false => cases h
  | true =>
    rw [if_pos rfl] at h
    unfold Opcode.ofCompound? at h
    split at h
    all_goals cases h
    all_goals exact ⟨by decide, by decide, rfl⟩

theorem plain_of_operator {k : TokenKind} (h : 0 < (Level.ofOperator k).rank) :
    k ≠ .semicolon ∧ k ≠ .eof ∧ k.needs = 0 := by
  unfold Level.ofOperator at h
  split at h
  all_goals first | exact ⟨by decide, by decide, rfl⟩ | exact absurd h (by decide)

def Begins (p : Pairing) (n m c : Nat) (x : Compiling σ Unit) (y : Watched Unit) : Prop :=
  ∀ ⦃s w⦄, (draft s).Left n → w.draft.Left m → p.begins c (draft s) w.draft →
    p.Course (draft s).advance (become .action Draft.advance w) (fun _ _ => p.runs .inside c)
      (x.run s) (y.run w)

theorem Begins.inStep {n m c : Nat} {x : Compiling σ Unit} {y : Watched Unit}
    (h : p.Begins n m c x y) : p.InStep n m (p.begins c) x y (fun _ _ => p.runs .inside c) :=
  fun _ _ left right before => (h left right before).after (.advance left) (.advance right) rfl

section

variable (laws : p.Laws) {n m c : Nat} {self : Level → Compiling σ Unit}
  {self' : Level → Watched Unit}
  (nested : ∀ level c, 0 < level.rank →
    p.InStep n m (p.runs .inside c) (self level) (self' level) (fun _ _ => p.runs .inside c))

include laws nested

theorem grouping_inStep {t u : Token} :
    p.InStep n m (fun d e => p.runs .inside c d e ∧ p.known d e t u) (grouping self t)
      (grouping self' u) (fun _ _ => p.runs .inside c) := by
  refine ((nested .assignment c (by decide)).keep (kept_known laws t u)).bind fun _ _ => ?_
  refine (Acts.of_current laws fun _ _ before => laws.of_inside before.1).inStep.bind fun v w => ?_
  refine .assume (fun _ _ before => (laws.same before.2.2).1) fun same => ?_
  rw [← same]
  split
  · next found =>
    refine (Acts.of_advance laws .rightParen (by decide) (by decide)).inStep.imp ?_
    rintro d e ⟨⟨before, _⟩, rfl, _⟩
    exact ⟨laws.of_inside before, found⟩
  · exact (Acts.of_fail laws _).inStep.imp fun _ _ before => before.1

theorem variableUse_inStep (assignable : Bool) {t u : Token} :
    p.InStep n m (fun d e => p.runs .inside (c + 1) d e ∧ p.known d e t u)
      (variableUse self assignable t) (variableUse self' assignable u)
      (fun _ _ => p.runs .inside c) := by
  have kept := kept_known laws t u
  refine bind (imp ((Acts.of_place laws).inStep.keep kept) fun _ _ before => ⟨before, before.2⟩)
    fun x y => ?_
  refine .assume (fun _ _ before => before.1.1) fun stored => ?_
  refine (Acts.of_current laws fun _ _ before => laws.of_inside before.1.2).inStep.bind fun v w => ?_
  refine .assume (fun _ _ before => (laws.same before.2.2).1) fun same => ?_
  rw [← same]
  -- The operator is read; the tokens that code is written for later stay known.
  have read (plain : v.kind ≠ .semicolon) (running : v.kind ≠ .eof) (needs : v.kind.needs = 0) :
      p.InStep n m (fun d e => ((p.stored x y ∧ p.runs .inside c d e) ∧ p.known d e t u) ∧
          v = d.current ∧ p.known d e v w) (act advance : Compiling σ Unit) (act advance)
        (fun _ _ d e => p.runs .inside c d e ∧ p.known d e t u ∧ p.known d e v w) := by
    have advance : p.InStep n m _ (act advance : Compiling σ Unit) (act advance) _ :=
      (Acts.of_advance (c := c) laws _ plain running).inStep.keep (kept.and (kept_known laws v w))
    rw [needs] at advance
    refine advance.imp ?_
    rintro d e ⟨⟨⟨_, before⟩, known⟩, rfl, known'⟩
    exact ⟨⟨laws.of_inside before, rfl⟩, known, known'⟩
  have set : p.InStep n m (fun d e => p.runs .inside c d e ∧ p.known d e t u)
      (act (modify (x.emitSet t)) : Compiling σ Unit) (act (modify (y.emitSet u)))
      (fun _ _ => p.runs .inside c) :=
    (Acts.of_modify (x.emitSet_still t) (y.emitSet_still u)
      fun _ _ before => laws.emitSet before.1 stored before.2).inStep
  have get : p.InStep n m (fun d e => p.runs .inside c d e ∧ p.known d e t u)
      (act (modify (x.emitGet t)) : Compiling σ Unit) (act (modify (y.emitGet u)))
      (fun _ _ => p.runs .inside c) :=
    (Acts.of_modify (x.emitGet_still t) (y.emitGet_still u)
      fun _ _ before => laws.emitGet before.1 stored before.2).inStep
  have inner := nested .assignment c (by decide)
  split
  · next found =>
    have kind : v.kind = .assign := by simpa using (Bool.and_eq_true_iff.1 found).2
    refine (read (by simp [kind]) (by simp [kind]) (by rw [kind]; rfl)).bind fun _ _ => ?_
    refine (imp (inner.keep kept) fun _ _ before => ⟨before.1, before.2.1⟩).bind fun _ _ => set
  · split
    · next arithmetic found =>
      obtain ⟨plain, running, needs⟩ := plain_of_compound found
      have known := kept.and (kept_known laws v w)
      refine (read plain running needs).bind fun _ _ => ?_
      refine bind (imp (get.keep known) fun _ _ before => ⟨⟨before.1, before.2.1⟩, before.2⟩)
        fun _ _ => ?_
      refine (inner.keep known).bind fun _ _ => ?_
      refine bind (imp ((Acts.of_emitAt laws arithmetic).inStep.keep kept)
        fun _ _ before => ⟨⟨before.1, before.2.2⟩, before.2.1⟩) fun _ _ => set
    · exact get.imp fun _ _ before => ⟨before.1.1.2, before.1.2⟩

theorem operand_inStep (assignable : Bool) :
    p.InStep n m (fun d e => p.runs .inside (c + d.previous.kind.needs) d e)
      (operand self assignable) (operand self' assignable) (fun _ _ => p.runs .inside c) := by
  have previous : p.InStep n m (fun d e => p.runs .inside (c + d.previous.kind.needs) d e)
      (act previous : Compiling σ Token) (act previous)
      (fun t u d e => p.runs .inside (c + t.kind.needs) d e ∧ p.known d e t u) :=
    Acts.inStep fun _ _ left right before => ⟨.refl left, .refl right, before, laws.previous before⟩
  refine previous.bind fun t u => .assume (fun _ _ before => laws.same before.2) fun ⟨same, same'⟩ => ?_
  have unary (level : Level) (positive : 0 < level.rank) (op : Opcode) :=
    ((nested level c positive).keep (kept_known laws t u)).bind fun _ _ =>
      (Acts.of_emitAt laws op).inStep
  have literal (v : Value) : p.Acts n m
      (fun d e => p.runs .inside (c + 1) d e ∧ p.known d e t u) (emitConstant v) (emitConstant v)
      (fun _ _ => p.runs .inside c) :=
    fun _ _ left right before => Acts.of_constant laws v left right before.1
  have plain (op : Opcode) : p.InStep n m
      (fun d e => p.runs .inside c d e ∧ p.known d e t u) (act (emit op) : Compiling σ Unit)
      (act (emit op)) (fun _ _ => p.runs .inside c) :=
    (Acts.of_emit laws op).inStep.imp fun _ _ before => before.1
  rw [← same]
  split
  · next kind =>
    rw [kind]
    exact grouping_inStep laws nested
  · next kind =>
    rw [kind]
    exact unary .unary (by decide) .negate
  · next kind =>
    rw [kind]
    exact unary .unary (by decide) .not
  · next kind =>
    rw [kind]
    exact variableUse_inStep laws nested assignable
  · next kind =>
    rw [kind]
    refine Acts.inStep ?_
    unfold stringLiteral
    rw [← same']
    split
    · exact literal _
    · exact Acts.of_fail laws _
  · next kind =>
    rw [kind]
    refine Acts.inStep ?_
    unfold integerLiteral
    rw [← same']
    split
    · exact literal _
    · exact Acts.of_fail laws _
  · next kind =>
    rw [kind]
    refine Acts.inStep ?_
    unfold floatLiteral
    rw [← same']
    split
    · exact literal _
    · exact Acts.of_fail laws _
  · next kind =>
    rw [kind]
    exact plain _
  · next kind =>
    rw [kind]
    exact plain _
  · next kind =>
    rw [kind]
    exact plain _
  · exact (Acts.of_fail laws _).inStep

/-- Only an operator has been read, so the case without a rule does not come up. -/
theorem operation_inStep :
    p.InStep n m (fun d e => p.runs .inside c d e ∧ 0 < (Level.ofOperator d.previous.kind).rank)
      (operation self) (operation self') (fun _ _ => p.runs .inside c) := by
  have previous : p.InStep n m
      (fun d e => p.runs .inside c d e ∧ 0 < (Level.ofOperator d.previous.kind).rank)
      (act previous : Compiling σ Token) (act previous)
      (fun t u d e => 0 < (Level.ofOperator t.kind).rank ∧ p.runs .inside c d e ∧
        p.known d e t u) :=
    Acts.inStep fun _ _ left right before =>
      ⟨.refl left, .refl right, before.2, before.1, laws.previous before.1⟩
  refine previous.bind fun t u => .assume (fun _ _ before => before.1) fun between => ?_
  refine .assume (fun _ _ before => (laws.same before.2.2).1) fun same => ?_
  refine imp ?_ fun _ _ before => before.2
  have kept := kept_known laws t u
  -- A jump over what follows, which the offset outlasts.
  have jump (op : Opcode) : p.InStep n m (fun d e => p.runs .inside c d e ∧ p.known d e t u)
      (act (emitJump op) : Compiling σ Nat) (act (emitJump op))
      (fun i j d e => p.offset i j ∧ p.runs .inside c d e) :=
    (Acts.of_jump laws op).inStep.imp fun _ _ before => before.1
  have rest {level : Level} (positive : 0 < level.rank) {i j : Nat} (offset : p.offset i j) :
      p.InStep n m (p.runs .inside c)
        (do act (emit .pop); self level; act (patchJump i) : Compiling σ Unit)
        (do act (emit .pop); self' level; act (patchJump j) : Watched Unit)
        (fun _ _ => p.runs .inside c) :=
    (Acts.of_emit laws .pop).inStep.bind fun _ _ => (nested level c positive).bind fun _ _ =>
      (Acts.of_patch laws).inStep.imp fun _ _ before => ⟨offset, before⟩
  rw [← same]
  split
  · refine ((nested .ternary c (by decide)).keep kept).bind fun _ _ => ?_
    refine ((Acts.of_expect laws _ (by decide) (by decide) _).inStep.keep kept).bind fun _ _ => ?_
    exact ((nested .ternary c (by decide)).keep kept).bind fun _ _ => (Acts.of_emitAt laws _).inStep
  · refine (jump .jumpFalse).bind fun i j => .assume (fun _ _ before => before.1) fun offset => ?_
    exact (rest (by decide) offset).imp fun _ _ before => before.2
  · refine (jump .jumpFalse).bind fun i j => .assume (fun _ _ before => before.1) fun offset => ?_
    refine bind (imp (Acts.of_jump laws .jump).inStep fun _ _ before => before.2) fun i' j' => ?_
    refine .assume (fun _ _ before => before.1) fun offset' => ?_
    refine bind (imp (Acts.of_patch laws).inStep fun _ _ before => ⟨offset, before.2⟩) fun _ _ => ?_
    exact rest (by decide) offset'
  · next mark conjunctive disjunctive =>
    obtain ⟨op, binary⟩ :=
      exists_ofBinary (mem_operators_ofOperator between mark conjunctive disjunctive)
    rw [binary]
    refine ((nested _ c ?_).keep kept).bind fun _ _ => (Acts.of_emitAt laws op).inStep
    cases Level.ofOperator t.kind <;> decide

end

/-- Each round reads an operator, so the loop needs no more rounds than there are tokens. -/
theorem operations_inStep (laws : p.Laws) {n m c k k' : Nat} {self : Level → Compiling σ Unit}
    {self' : Level → Watched Unit}
    (nested : ∀ level c, 0 < level.rank →
      p.InStep n m (p.runs .inside c) (self level) (self' level) (fun _ _ => p.runs .inside c))
    {level : Level} (positive : 0 < level.rank) (enough : n ≤ k) (enough' : m ≤ k') :
    p.InStep n m (p.runs .inside c) (operations self level k) (operations self' level k')
      (fun _ _ => p.runs .inside c) := by
  induction k generalizing n m k' with
  | zero =>
    intro s w left
    exact (left.mono enough).not_zero.elim
  | succ k ih =>
    intro s w left right before
    obtain ⟨k', rfl⟩ := (right.mono enough').succ
    obtain ⟨n, rfl⟩ := left.succ
    obtain ⟨m, rfl⟩ := right.succ
    have nested' (level : Level) (c : Nat) (positive : 0 < level.rank) :=
      (nested level c positive).mono (Nat.le_succ n) (Nat.le_succ m)
    have again := ih nested' (Nat.le_of_succ_le_succ enough) (Nat.le_of_succ_le_succ enough')
    refine bind (Acts.of_current laws fun _ _ => laws.of_inside).inStep (fun t u => ?_) left right
      before
    refine .assume (fun _ _ before => (laws.same before.2.2).1) fun same => ?_
    rw [← same]
    split
    · next follows =>
      have between := Nat.lt_of_lt_of_le positive follows
      obtain ⟨plain, running, needs⟩ := plain_of_operator between
      have read : p.InStep (n + 1) (m + 1)
          (fun d e => p.runs .inside c d e ∧ t = d.current ∧ p.known d e t u)
          (act advance : Compiling σ Unit) (act advance)
          (fun _ _ d e => (d.Left n ∧ e.Left m) ∧ p.runs .inside c d e ∧
            0 < (Level.ofOperator d.previous.kind).rank) := by
        refine Acts.inStep ?_
        rintro d e left right ⟨before, rfl, known⟩
        have begins := laws.of_inside before
        have inside := laws.read begins plain running
        rw [needs] at inside
        have running' := (laws.same (laws.current begins)).1 ▸ running
        refine ⟨.advance left, .advance right, ⟨left.read running, right.read running'⟩, inside, ?_⟩
        rwa [d.advance_previous]
      exact read.bind fun _ _ => narrow ((operation_inStep laws nested').bind fun _ _ => again)
    · exact of_pure fun _ _ before => before.1

theorem ending_inStep (laws : p.Laws) {n m c : Nat} (level : Level) :
    p.InStep n m (p.runs .inside c) (ending level : Compiling σ Unit) (ending level)
      (fun _ _ => p.runs .inside c) := by
  have current : p.InStep n m (p.runs .inside c) (act current : Compiling σ Token) (act current) _ :=
    (Acts.of_current laws fun _ _ => laws.of_inside).inStep
  refine current.bind fun t u => .assume (fun _ _ before => (laws.same before.2.2).1) fun same => ?_
  rw [← same]
  split
  · refine bind (current.imp fun _ _ before => before.1) fun t u => ?_
    exact (Acts.of_fail laws _).inStep.imp fun _ _ before => ⟨before.1, before.2.2⟩
  · exact of_pure fun _ _ before => before.1

def Refused (p : Pairing) (d e : Draft) : Prop :=
  (d.previous.kind = .semicolon ∨ d.previous.kind = .eof) ∧ d.previous.kind = e.previous.kind ∧
    p.lost (d.report d.previous .expectedExpression) (e.report e.previous .expectedExpression)

theorem operand_refused {n m : Nat} {self : Level → Compiling σ Unit} {self' : Level → Watched Unit}
    {assignable : Bool} {B : Unit → Unit → Draft → Draft → Prop} :
    p.InStep n m p.Refused (operand self assignable) (operand self' assignable) B := by
  have previous : p.InStep n m p.Refused (act previous : Compiling σ Token) (act previous)
      (fun t u d e => ((t.kind = .semicolon ∨ t.kind = .eof) ∧ t.kind = u.kind) ∧
        p.lost (d.report t .expectedExpression) (e.report u .expectedExpression)) :=
    Acts.inStep fun _ _ left right before =>
      ⟨.refl left, .refl right, ⟨before.1, before.2.1⟩, before.2.2⟩
  refine previous.bind fun t u => .assume (fun _ _ before => before.1) fun ⟨kind, same⟩ => ?_
  refine imp ?_ fun _ _ before => before.2
  have fail : p.InStep n m
      (fun d e => p.lost (d.report t .expectedExpression) (e.report u .expectedExpression))
      (act (fail t .expectedExpression) : Compiling σ Unit) (act (fail u .expectedExpression)) B :=
    Acts.inStep fun _ _ left right before => ⟨.report left _ _, .report right _ _, before⟩
  rw [← same]
  rcases kind with kind | kind
  all_goals
    rw [kind]
    exact fail

theorem expression_begins (laws : p.Laws) (n m c : Nat) {level : Level} (positive : 0 < level.rank) :
    p.Begins n m c (expression n level : Compiling σ Unit) (expression m level) := by
  induction n generalizing m c level with
  | zero =>
    intro s w left
    exact left.not_zero.elim
  | succ n ih =>
    intro s w left right before
    obtain ⟨m, rfl⟩ := right.succ
    have same := (laws.same (laws.current before)).1
    have advanced := draft_become .action Draft.advance s
    rw [expression, expression, run_advance_bind, run_advance_bind, ← advanced]
    by_cases refused : (draft s).current.kind = .semicolon ∨ (draft s).current.kind = .eof
    · have lost : p.InStep (n + 1) (m + 1) p.Refused
          (operand (expression n) (level.rank ≤ Level.assignment.rank) : Compiling σ Unit)
          (operand (expression m) _) (fun _ _ _ _ => False) := operand_refused
      refine (lost.bind fun _ _ => .assume (fun _ _ => id) False.elim) ?_
        (right.advance.mono right.count) ?_
      all_goals rw [advanced]
      · exact left.advance.mono left.count
      · change p.Refused _ w.draft.advance
        rw [Refused, Draft.advance_previous, Draft.advance_previous]
        exact ⟨refused, same, laws.refuse before refused⟩
    · obtain ⟨plain, running⟩ := not_or.1 refused
      have nested (level : Level) (c : Nat) (positive : 0 < level.rank) :
          p.InStep n m (p.runs .inside c) (expression n level : Compiling σ Unit)
            (expression m level) (fun _ _ => p.runs .inside c) :=
        (ih m c positive).inStep.imp fun _ _ => laws.of_inside
      have read := laws.read before plain running
      rw [← (draft s).advance_previous] at read
      have loop := operations_inStep (c := c) laws nested positive (Nat.le_refl n) (Nat.le_refl m)
      have rest := (operand_inStep (c := c) laws nested (level.rank ≤ Level.assignment.rank)).bind
        fun _ _ => loop.bind fun _ _ => ending_inStep laws level
      refine rest ?_ (right.read (same ▸ running)) ?_
      all_goals rw [advanced]
      · exact left.read running
      · exact read

theorem Begins.mono {n m n' m' c : Nat} {x : Compiling σ Unit} {y : Watched Unit}
    (h : p.Begins n m c x y) (left : n' ≤ n) (right : m' ≤ m) : p.Begins n' m' c x y :=
  fun _ _ few few' before => h (few.mono left) (few'.mono right) before

section

variable (laws : p.Laws) {n m c : Nat} {expr : Compiling σ Unit} {expr' : Watched Unit}
  (expression : ∀ c, p.Begins n m c expr expr')

include laws expression

theorem ended_course {s : σ} {w : Watch} (left : (draft s).Left n) (right : w.draft.Left m)
    (before : p.begins c (draft s) w.draft) (fault : SyntaxFault) (op : Opcode) :
    p.Course (draft s).advance (become .action Draft.advance w) (fun _ _ => p.runs .ended c)
      ((do expr; act (expect .semicolon fault); act (emit op) : Compiling σ Unit).run s)
      ((do expr'; act (expect .semicolon fault); act (emit op) : Watched Unit).run w) := by
  refine Ends.bind (expression c left right before) ?_
  rintro _ _ s' w' ⟨leads, leads', same, inside⟩
  have rest : p.InStep n m (p.runs .inside c)
      (do act (expect .semicolon fault); act (emit op) : Compiling σ Unit)
      (do act (expect .semicolon fault); act (emit op)) (fun _ _ => p.runs .ended c) :=
    (Acts.of_stop laws fault).inStep.bind fun _ _ => (Acts.of_emit laws op).inStep
  refine Course.after (rest ?_ ?_ inside) leads leads' same
  · exact leads.left.mono (Nat.le_trans left.advance.count left.count)
  · exact leads'.left.mono (Nat.le_trans right.advance.count right.count)

theorem initializer_inStep :
    p.InStep n m (p.runs .inside c) (initializer expr) (initializer expr')
      (fun _ _ => p.runs .ended c) := by
  refine (Acts.of_take laws (by decide) (by decide) rfl).inStep.bind fun a b => ?_
  refine .assume (fun _ _ before => before.1) ?_
  rintro rfl
  have value : p.InStep n m (p.runs .inside c) expr expr' (fun _ _ => p.runs .inside c) :=
    (expression c).inStep.imp fun _ _ => laws.of_inside
  cases a with
  | true =>
    exact bind (value.imp fun _ _ before => before.2) fun _ _ => (Acts.of_stop laws _).inStep
  | false =>
    exact bind ((Acts.of_emit laws _).inStep.imp fun _ _ before => before.2) fun _ _ =>
      (Acts.of_stop laws _).inStep

omit laws expression in
theorem declared_inStep {A B : Draft → Draft → Prop} {name : Text} {f g : Draft → Draft}
    (h : ∀ d e, A d e → d.Still (f d) ∧ e.Still (g e) ∧ B (f d) (g e)) :
    p.InStep n m A (modify (become (.declared name) f) : Compiling σ Unit)
      (modify (become (.declared name) g)) (fun _ _ => B) := by
  intro s w left right before
  obtain ⟨still, still', after⟩ := h _ _ before
  refine ⟨?_, .of_still right still', rfl, ?_⟩
  all_goals rw [draft_become]
  · exact .of_still left still
  · exact after

omit expression in
theorem ready_inStep {A : Draft → Draft → Prop} {x : Compiling σ Unit} {y : Watched Unit}
    (h : p.InStep n m A x y (fun _ _ => p.runs .ended c)) :
    p.InStep n m A (andThen x .ready fun d => { d with scope := d.scope.markReady })
      (andThen y .ready fun d => { d with scope := d.scope.markReady })
      (fun _ _ => p.runs .ended c) := by
  intro s w left right before
  have course := h left right before
  have still (d : Draft) : d.Still { d with scope := d.scope.markReady } :=
    ⟨rfl, rfl, d.scope.markReady_depth⟩
  rw [run_andThen, run_andThen]
  revert course
  generalize x.run s = r, y.run w = r'
  intro course
  cases r <;> cases r'
  · obtain ⟨leads, leads', same, ended⟩ := course
    refine ⟨?_, leads'.trans (.of_still leads'.left (still _)), same, ?_⟩
    all_goals rw [draft_become]
    · exact leads.trans (.of_still leads.left (still _))
    · exact laws.ready ended
  · exact course
  · exact course
  · obtain ⟨onto, onto', same, lost⟩ := course
    refine ⟨?_, onto'.trans (Draft.Leads.of_still onto'.left (still _)).toOnto, same, ?_⟩
    all_goals rw [draft_become]
    · exact onto.trans (Draft.Leads.of_still onto.left (still _)).toOnto
    · exact laws.ready_lost lost

theorem letDeclaration_inStep :
    p.InStep n m (p.runs .inside c) (letDeclaration expr) (letDeclaration expr')
      (fun _ _ => p.runs .ended c) := by
  refine (Acts.of_expect laws .identifier (by decide) (by decide) _).inStep.bind fun _ _ => ?_
  refine (Acts.of_previous (s := .inside) (c := c + 1) laws fun _ _ => id).inStep.bind fun t u => ?_
  refine .assume (fun _ _ before => (laws.same before.2).2) fun same => ?_
  have kept := kept_known laws t u
  -- The scopes are read, and they are the same.
  have get : p.InStep n m (fun d e => p.runs .inside (c + 1) d e ∧ p.known d e t u)
      (act get : Compiling σ Draft) (act get)
      (fun d e d' e' => (d = d' ∧ e = e') ∧ p.runs .inside (c + 1) d' e' ∧ p.known d' e' t u) :=
    Acts.inStep fun _ _ left right before => ⟨.refl left, .refl right, ⟨rfl, rfl⟩, before⟩
  refine get.bind fun d e => ?_
  refine .assume (fun _ _ before => ?_) fun (scopes : d.scope = e.scope) => ?_
  · obtain ⟨⟨rfl, rfl⟩, before, _⟩ := before
    exact laws.scope (laws.of_inside before)
  dsimp only
  rw [← scopes, ← same]
  split
  · refine ((initializer_inStep laws expression).keep kept).imp (fun _ _ before => before.2) |>.bind
      fun _ _ => (Acts.of_name laws).inStep.bind fun i j => ?_
    exact (Acts.of_modify (f := (·.emitWide .defGlobal i)) (g := (·.emitWide .defGlobal j))
      (fun _ => ⟨rfl, rfl, rfl⟩) (fun _ => ⟨rfl, rfl, rfl⟩)
      fun _ _ before => laws.define before.2 before.1).inStep
  · next inner =>
    split
    · exact (Acts.of_fail laws _).inStep.imp fun _ _ before => before.2
    · next fresh =>
      cases declared : d.scope.declare? t.lexeme with
      | none => exact (Acts.of_fail laws _).inStep.imp fun _ _ before => before.2
      | some scope =>
        have depth := d.scope.declare?_depth declared
        refine bind (declared_inStep (B := p.runs .inside c) ?_) fun _ _ =>
          ready_inStep laws (initializer_inStep laws expression)
        rintro _ _ ⟨⟨rfl, rfl⟩, before, _⟩
        exact ⟨⟨rfl, rfl, depth⟩, ⟨rfl, rfl, depth.trans (congrArg Scope.depth scopes)⟩,
          laws.declare (laws.spare before) inner (by simpa using fresh) declared⟩

end

end Pairing

end StackScript
