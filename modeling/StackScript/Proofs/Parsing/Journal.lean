import StackScript.Proofs.Parsing.Program
import StackScript.Proofs.Parsing.Watching

/-! A compilation that keeps a journal. Statements and declarations are compiled as ever, and each
declaration that comes to an end is entered. What is asked of two drafts may depend on the journal;
statements and declarations keep a compilation in step with one that is watched. -/

namespace StackScript

open Build Carrier

namespace Draft

theorem skip_of_resumes {inBlock : Bool} {previous current : Token}
    (h : resumesAt inBlock previous current = true) (upcoming : List Token) :
    skip inBlock previous current upcoming = (previous, current, upcoming) := by
  cases upcoming with
  | nil => rfl
  | cons t upcoming => exact if_pos h

theorem skip_tokens (inBlock : Bool) (previous current : Token) (upcoming : List Token) :
    ∃ read, Grammar.Running read ∧ current :: upcoming = read ++
      ((skip inBlock previous current upcoming).2.1 ::
        (skip inBlock previous current upcoming).2.2) := by
  induction upcoming generalizing previous current with
  | nil => exact ⟨[], by simp [Grammar.Running], rfl⟩
  | cons t upcoming ih =>
    unfold skip
    split
    · exact ⟨[], by simp [Grammar.Running], rfl⟩
    · next further =>
      obtain ⟨read, running, split⟩ := ih current t
      refine ⟨current :: read, ?_, congrArg (current :: ·) split⟩
      rw [Grammar.running_cons]
      refine ⟨fun ends => further ?_, running⟩
      simp [resumesAt, ends]

theorem leaveBlock_depth (d : Draft) : d.leaveBlock.scope.depth = d.scope.depth - 1 :=
  congrArg Scope.depth d.leaveBlock_scope

theorem Onto.synchronize {d d' : Draft} (h : d.Onto d') : d.Onto d'.synchronize := by
  obtain ⟨read, running, split⟩ := skip_tokens (0 < d'.scope.depth) d'.previous d'.current d'.upcoming
  have tokens : d'.tokens = read ++ d'.synchronize.tokens := split
  have length := congrArg List.length tokens
  have count := h.left.count
  rw [List.length_append] at length
  exact ⟨⟨h.left.ended.of_append tokens running, by omega⟩, h.depth⟩

theorem Onto.leaveBlock {d d' : Draft} (h : d.enterBlock.Onto d') : d.Onto d'.leaveBlock := by
  refine ⟨(h.left.same d'.leaveBlock_sameReading.tokens).mono h.left.count, ?_⟩
  rw [d'.leaveBlock_depth, h.depth]
  rfl

end Draft

namespace Build

variable {σ : Type} [Carrier σ]

theorem run_declarations_more {decl : Compiling σ Unit} {s s' : σ} {fuel : Nat}
    (running : (draft s).current.kind ≠ .eof)
    (run : decl.run (become .action id s) = .ok () s') :
    (declarations decl (fuel + 1)).run s = (declarations decl fuel).run s' := by
  rw [declarations, run_take_bind, if_neg running, if_neg Bool.false_ne_true, EStateM.run_bind, run]

/-- The kinds that begin a statement other than an expression. -/
def headwords : List TokenKind := [.kwPrint, .kwIf, .kwWhile, .leftBrace]

theorem run_statement_plain {expr : Compiling σ Unit} {fuel : Nat} {s : σ}
    (plain : (draft s).current.kind ∉ headwords) :
    (statement expr (fuel + 1)).run s = (expressionStatement expr).run (become .action id s) := by
  rw [statement, run_current_bind]
  split
  · next kind => exact absurd (by simp [kind, headwords]) plain
  · next kind => exact absurd (by simp [kind, headwords]) plain
  · next kind => exact absurd (by simp [kind, headwords]) plain
  · next kind => exact absurd (by simp [kind, headwords]) plain
  · rfl

end Build

def Watched.text : (fuel : Nat) → Watched Unit := Build.text

/-- What is asked of two drafts as the journal grows, also between declarations. -/
structure Survey where
  pairing : List Activation → Pairing
  between : List Activation → Draft → Draft → Prop

namespace Survey

variable {q : Survey} {α β γ δ : Type}

structure Laws (q : Survey) : Prop where
  pairing (j : List Activation) : (q.pairing j).Laws
  offset (j j' : List Activation) : (q.pairing j).offset = (q.pairing j').offset
  finish {j j' : List Activation} {d d' e e' : Draft} : (q.pairing j).begins 0 d e →
    (q.pairing j').runs .ended 0 d' e' →
    q.between (j' ++ [⟨e, e', false⟩])
      (d'.recordSpan d.chunk.code.size (d.current.span.join d'.previous.span))
      (e'.recordSpan e.chunk.code.size (e.current.span.join e'.previous.span))
  recover {j j' : List Activation} {d d' e e' : Draft} : (q.pairing j).begins 0 d e →
    (q.pairing j').lost d' e' → q.between (j' ++ [⟨e, e', true⟩]) d'.synchronize e'.synchronize

def begins (q : Survey) (c : Nat) (d : Draft) (w : Watch) : Prop :=
  (q.pairing w.journal).begins c d w.draft

def runs (q : Survey) (s : Stage) (c : Nat) (d : Draft) (w : Watch) : Prop :=
  (q.pairing w.journal).runs s c d w.draft

def offset (q : Survey) : Nat → Nat → Prop := (q.pairing []).offset

def lost (q : Survey) (d : Draft) (w : Watch) : Prop := (q.pairing w.journal).lost d w.draft

variable {σ : Type} [Carrier σ]

/-- How a compilation and a watched one end that have not more tokens left than they began with. -/
def Onward (d : Draft) (w : Watch) (B : α → β → Draft → Watch → Prop) (E : Draft → Watch → Prop) :
    EStateM.Result GivenUp σ α → EStateM.Result GivenUp Watch β → Prop :=
  Ends (fun a b s w' => d.Onto (draft s) ∧ w.draft.Onto w'.draft ∧ B a b (draft s) w')
    (fun s w' => d.Onto (draft s) ∧ w.draft.Onto w'.draft ∧ E (draft s) w')

section

variable {d d₁ : Draft} {s : σ} {w w₁ : Watch} {B : α → β → Draft → Watch → Prop}
  {E : Draft → Watch → Prop}

theorem Onward.after {r : EStateM.Result GivenUp σ α} {r' : EStateM.Result GivenUp Watch β}
    (h : Onward d₁ w₁ B E r r') (left : d.Onto d₁) (right : w.draft.Onto w₁.draft) :
    Onward d w B E r r' := by
  refine Ends.imp h ?_ ?_
  · rintro a b s w' ⟨onto, onto', after⟩
    exact ⟨left.trans onto, right.trans onto', after⟩
  · rintro s w' ⟨onto, onto', lost⟩
    exact ⟨left.trans onto, right.trans onto', lost⟩

theorem Onward.bind {x : Compiling σ α} {y : Watched β} {f : α → Compiling σ γ} {g : β → Watched δ}
    {C : γ → δ → Draft → Watch → Prop} (first : Onward d₁ w₁ B E (x.run s) (y.run w))
    (second : ∀ a b s' w', d₁.Onto (draft s') → w₁.draft.Onto w'.draft → B a b (draft s') w' →
      Onward (draft s') w' C E ((f a).run s') ((g b).run w')) :
    Onward d₁ w₁ C E ((x >>= f).run s) ((y >>= g).run w) := by
  refine Ends.bind first ?_
  rintro a b s' w' ⟨onto, onto', after⟩
  exact (second a b s' w' onto onto' after).after onto onto'

end

def Outcome (q : Survey) (d : Draft) (w : Watch) (B : α → β → Draft → Watch → Prop) :
    EStateM.Result GivenUp σ α → EStateM.Result GivenUp Watch β → Prop := Onward d w B q.lost

/-- Where no declaration ends, what keeps two drafts in step does so under the journal of one of
them. -/
theorem Outcome.of_course {d : Draft} {w : Watch} {B : α → β → Draft → Draft → Prop}
    {r : EStateM.Result GivenUp σ α} {r' : EStateM.Result GivenUp Watch β}
    (h : (q.pairing w.journal).Course d w B r r') :
    q.Outcome d w (fun a b d' w' => w'.journal = w.journal ∧ B a b d' w'.draft) r r' := by
  refine Ends.imp h ?_ ?_
  · rintro a b s w' ⟨leads, leads', same, after⟩
    exact ⟨leads.toOnto, leads'.toOnto, same, after⟩
  · rintro s w' ⟨onto, onto', same, lost⟩
    rw [← same] at lost
    exact ⟨onto, onto', lost⟩

theorem Outcome.simple {d : Draft} {w : Watch} {t : Stage} {c : Nat}
    {r : EStateM.Result GivenUp σ Unit} {r' : EStateM.Result GivenUp Watch Unit}
    (h : (q.pairing w.journal).Course d w (fun _ _ => (q.pairing w.journal).runs t c) r r') :
    q.Outcome d w (fun _ _ => q.runs t c) r r' := by
  refine Ends.imp (Outcome.of_course h) ?_ fun _ _ => id
  rintro a b s w' ⟨onto, onto', same, after⟩
  rw [← same] at after
  exact ⟨onto, onto', after⟩

def InStep (q : Survey) (n m : Nat) (A : Draft → Watch → Prop) (x : Compiling σ α) (y : Watched β)
    (B : α → β → Draft → Watch → Prop) : Prop :=
  ∀ ⦃s w⦄, (draft s).Left n → w.draft.Left m → A (draft s) w →
    q.Outcome (draft s) w B (x.run s) (y.run w)

namespace InStep

variable {n m n' m' : Nat} {A A' : Draft → Watch → Prop} {B : α → β → Draft → Watch → Prop}
  {C : γ → δ → Draft → Watch → Prop} {x : Compiling σ α} {y : Watched β}

theorem bind {f : α → Compiling σ γ} {g : β → Watched δ} (first : q.InStep n m A x y B)
    (second : ∀ a b, q.InStep n m (B a b) (f a) (g b) C) :
    q.InStep n m A (x >>= f) (y >>= g) C := by
  intro s w left right h
  refine Onward.bind (first left right h) fun a b s' w' onto onto' after => ?_
  exact second a b (onto.left.mono left.count) (onto'.left.mono right.count) after

theorem narrow (h : q.InStep n' m' A x y B) :
    q.InStep n m (fun d w => (d.Left n' ∧ w.draft.Left m') ∧ A d w) x y B :=
  fun _ _ _ _ before => h before.1.1 before.1.2 before.2

theorem imp (h : q.InStep n m A x y B) (stronger : ∀ d w, A' d w → A d w) : q.InStep n m A' x y B :=
  fun _ _ few few' before => h few few' (stronger _ _ before)

theorem assume {Q : Prop} (fact : ∀ d w, A d w → Q) (h : Q → q.InStep n m A x y B) :
    q.InStep n m A x y B :=
  fun _ _ left right before => h (fact _ _ before) left right before

theorem of_pure {a : α} {b : β} (h : ∀ d w, A d w → B a b d w) :
    q.InStep n m A (pure a : Compiling σ α) (pure b) B :=
  fun _ _ left right before => ⟨.refl left, .refl right, h _ _ before⟩

theorem lift {A : List Activation → Draft → Draft → Prop}
    {B : List Activation → α → β → Draft → Draft → Prop}
    (h : ∀ j, (q.pairing j).InStep n m (A j) x y (B j)) :
    q.InStep n m (fun d w => A w.journal d w.draft) x y
      (fun a b d w => B w.journal a b d w.draft) := by
  intro s w left right before
  refine Ends.imp (Outcome.of_course (h w.journal left right before)) ?_ fun _ _ => id
  rintro a b s' w' ⟨onto, onto', same, after⟩
  rw [← same] at after
  exact ⟨onto, onto', after⟩

end InStep

open InStep

def Statements (q : Survey) (n m : Nat) (x : Compiling σ Unit) (y : Watched Unit) : Prop :=
  ∀ ⦃s w⦄, (draft s).Left n → w.draft.Left m → q.begins 0 (draft s) w →
    q.Outcome (draft s).advance (become .action Draft.advance w) (fun _ _ => q.runs .ended 0)
      (x.run s) (y.run w)

section

variable {n m : Nat} {stmt : Compiling σ Unit} {stmt' : Watched Unit}
  (statement : q.Statements n m stmt stmt')

theorem Statements.inStep (statement : q.Statements n m stmt stmt') :
    q.InStep n m (q.begins 0) stmt stmt' (fun _ _ => q.runs .ended 0) :=
  fun _ _ left right before => (statement left right before).after (.advance left) (.advance right)

theorem Statements.mono {n' m' : Nat} (statement : q.Statements n m stmt stmt') (left : n' ≤ n)
    (right : m' ≤ m) : q.Statements n' m' stmt stmt' :=
  fun _ _ few few' => statement (few.mono left) (few'.mono right)

variable {s : Stage} {c : Nat} (laws : q.Laws)

include laws

theorem begins_of_inside {d : Draft} {w : Watch} (h : q.runs .inside c d w) : q.begins c d w :=
  (laws.pairing w.journal).of_inside h

theorem emit_inStep (op : Opcode) :
    q.InStep n m (q.runs s c) (act (emit op) : Compiling σ Unit) (act (emit op))
      (fun _ _ => q.runs s c) :=
  lift fun j => (Pairing.Acts.of_emit (laws.pairing j) op).inStep

theorem jump_inStep (op : Opcode) :
    q.InStep n m (q.runs s c) (act (emitJump op) : Compiling σ Nat) (act (emitJump op))
      (fun i j d w => q.offset i j ∧ q.runs s c d w) := by
  refine lift (A := fun j => (q.pairing j).runs s c)
    (B := fun j i k d e => q.offset i k ∧ (q.pairing j).runs s c d e) fun j => ?_
  have jump := Pairing.Acts.of_jump (n := n) (m := m) (s := s) (c := c) (laws.pairing j) op
  rw [laws.offset j []] at jump
  exact jump.inStep

theorem patch_inStep {i j : Nat} (offset : q.offset i j) :
    q.InStep n m (q.runs s c) (act (patchJump i) : Compiling σ Unit) (act (patchJump j))
      (fun _ _ => q.runs s c) := by
  refine lift fun k =>
    (Pairing.Acts.of_patch (laws.pairing k)).inStep.imp fun _ _ before => ⟨?_, before⟩
  rw [laws.offset k []]
  exact offset

theorem loop_inStep {i j : Nat} (offset : q.offset i j) :
    q.InStep n m (q.runs s c) (act (emitLoop i) : Compiling σ Unit) (act (emitLoop j))
      (fun _ _ => q.runs s c) := by
  refine lift fun k =>
    (Pairing.Acts.of_loop (laws.pairing k)).inStep.imp fun _ _ before => ⟨?_, before⟩
  rw [laws.offset k []]
  exact offset

theorem patchAll_inStep (exits : List (Nat × Nat)) (offsets : ∀ x ∈ exits, q.offset x.1 x.2) :
    q.InStep n m (q.runs s c) (patchAll (exits.map Prod.fst) : Compiling σ Unit)
      (patchAll (exits.map Prod.snd)) (fun _ _ => q.runs s c) := by
  induction exits with
  | nil => exact of_pure fun _ _ => id
  | cons x exits ih =>
    obtain ⟨first, others⟩ := List.forall_mem_cons.1 offsets
    exact (patch_inStep laws first).bind fun _ _ => ih others

theorem start_inStep :
    q.InStep n m (q.runs .inside c) (act get : Compiling σ Draft) (act get)
      (fun (d e : Draft) d' w => q.offset d.chunk.code.size e.chunk.code.size ∧
        q.runs .inside c d' w) := by
  refine lift (A := fun j => (q.pairing j).runs .inside c)
    (B := fun j (d e : Draft) d' e' => q.offset d.chunk.code.size e.chunk.code.size ∧
      (q.pairing j).runs .inside c d' e') fun j => Pairing.Acts.inStep ?_
  intro d e left right before
  have start := (laws.pairing j).start ((laws.pairing j).of_inside before)
  rw [laws.offset j []] at start
  exact ⟨.refl left, .refl right, start, before⟩

theorem branch_inStep {kind : TokenKind} (arm : kind = .kwElif ∨ kind = .kwElse) :
    q.InStep (n + 1) (m + 1) (q.runs .ended c) (act (take kind) : Compiling σ Bool)
      (act (take kind)) (fun a b d w => a = b ∧
        (a = true → (d.Left n ∧ w.draft.Left m) ∧ q.runs .inside c d w) ∧
        (a = false → q.runs .ended c d w)) :=
  lift (A := fun j => (q.pairing j).runs .ended c)
    (B := fun j a b d e => a = b ∧ (a = true → (d.Left n ∧ e.Left m) ∧ (q.pairing j).runs .inside c d e) ∧
      (a = false → (q.pairing j).runs .ended c d e))
    fun j => (Pairing.Acts.of_branch (laws.pairing j) arm).inStep

variable {expr : Compiling σ Unit} {expr' : Watched Unit}
  (expression : ∀ j c, (q.pairing j).Begins n m c expr expr')

include expression

theorem condition_inStep :
    q.InStep n m (q.runs .inside 0) expr expr' (fun _ _ => q.runs .inside 0) :=
  lift fun j => (expression j 0).inStep.imp fun _ _ => (laws.pairing j).of_inside

include statement

theorem guarded_inStep {f : Nat → Compiling σ γ} {g : Nat → Watched δ}
    {C : γ → δ → Draft → Watch → Prop}
    (rest : ∀ i j, q.offset i j → q.InStep n m (q.runs .ended 0) (f i) (g j) C) :
    q.InStep n m (q.runs .inside 0)
      (do expr; let i ← act (emitJump .jumpFalse); act (emit .pop); stmt; f i)
      (do expr'; let i ← act (emitJump .jumpFalse); act (emit .pop); stmt'; g i) C := by
  refine (condition_inStep laws expression).bind fun _ _ => (jump_inStep laws _).bind fun i j => ?_
  refine .assume (fun _ _ before => before.1) fun offset => ?_
  refine .bind ((emit_inStep laws .pop).imp fun _ _ before => before.2) fun _ _ => ?_
  exact .bind (statement.inStep.imp fun _ _ => begins_of_inside laws) fun _ _ => rest i j offset

theorem arm_inStep :
    q.InStep n m (q.runs .inside 0) (arm expr stmt) (arm expr' stmt')
      (fun i j d w => q.offset i j ∧ q.runs .ended 0 d w) := by
  refine guarded_inStep statement laws expression fun skip skip' skipped => ?_
  refine (jump_inStep laws .jump).bind fun i j => .assume (fun _ _ before => before.1) fun offset => ?_
  refine .bind ((patch_inStep laws skipped).imp fun _ _ before => before.2) fun _ _ => ?_
  exact (emit_inStep laws .pop).bind fun _ _ => .of_pure fun _ _ before => ⟨offset, before⟩

theorem while_inStep :
    q.InStep n m (q.runs .inside 0) (whileStatement expr stmt) (whileStatement expr' stmt')
      (fun _ _ => q.runs .ended 0) := by
  refine (start_inStep laws).bind fun d e => .assume (fun _ _ before => before.1) fun start => ?_
  refine imp (guarded_inStep statement laws expression fun i j offset => ?_)
    fun _ _ before => before.2
  exact (loop_inStep laws start).bind fun _ _ => (patch_inStep laws offset).bind fun _ _ =>
    emit_inStep laws .pop

end

def Exits (q : Survey) (xs ys : List Nat) : Prop :=
  ∃ exits : List (Nat × Nat), xs = exits.map Prod.fst ∧ ys = exits.map Prod.snd ∧
    ∀ x ∈ exits, q.offset x.1 x.2

theorem Exits.cons {xs ys : List Nat} {i j : Nat} (h : q.Exits xs ys) (offset : q.offset i j) :
    q.Exits (i :: xs) (j :: ys) := by
  obtain ⟨exits, rfl, rfl, offsets⟩ := h
  exact ⟨(i, j) :: exits, rfl, rfl, List.forall_mem_cons.2 ⟨offset, offsets⟩⟩

theorem arms_inStep (laws : q.Laws) {n m k k' : Nat} {stmt : Compiling σ Unit} {stmt' : Watched Unit}
    (statement : q.Statements n m stmt stmt') {expr : Compiling σ Unit} {expr' : Watched Unit}
    (expression : ∀ j c, (q.pairing j).Begins n m c expr expr') (enough : n ≤ k) (enough' : m ≤ k')
    {xs ys : List Nat} (exits : q.Exits xs ys) :
    q.InStep n m (q.runs .inside 0) (arms expr stmt k xs) (arms expr' stmt' k' ys)
      (fun xs ys d w => q.Exits xs ys ∧ q.runs .ended 0 d w) := by
  induction k generalizing n m k' xs ys with
  | zero =>
    intro s w left
    exact (left.mono enough).not_zero.elim
  | succ k ih =>
    intro s w left right before
    obtain ⟨k', rfl⟩ := (right.mono enough').succ
    obtain ⟨n, rfl⟩ := left.succ
    obtain ⟨m, rfl⟩ := right.succ
    refine bind (arm_inStep statement laws expression) (fun i j => ?_) left right before
    refine .assume (fun _ _ before => before.1) fun offset => ?_
    refine bind (imp (branch_inStep laws (.inl rfl)) fun _ _ before => before.2) fun more more' => ?_
    refine .assume (fun _ _ before => before.1) ?_
    rintro rfl
    cases more with
    | true =>
      refine imp (narrow (ih (statement.mono (Nat.le_succ n) (Nat.le_succ m))
        (fun j c => (expression j c).mono (Nat.le_succ n) (Nat.le_succ m))
        (Nat.le_of_succ_le_succ enough) (Nat.le_of_succ_le_succ enough') (exits.cons offset)))
        fun _ _ before => before.2.1 rfl
    | false => exact of_pure fun _ _ before => ⟨exits.cons offset, before.2.2 rfl⟩

theorem ifStatement_inStep (laws : q.Laws) {n m k k' : Nat} {stmt : Compiling σ Unit}
    {stmt' : Watched Unit} (statement : q.Statements n m stmt stmt') {expr : Compiling σ Unit}
    {expr' : Watched Unit} (expression : ∀ j c, (q.pairing j).Begins n m c expr expr')
    (enough : n ≤ k) (enough' : m ≤ k') :
    q.InStep n m (q.runs .inside 0) (ifStatement expr stmt k) (ifStatement expr' stmt' k')
      (fun _ _ => q.runs .ended 0) := by
  have none : q.Exits [] [] := ⟨[], rfl, rfl, by simp⟩
  refine (arms_inStep laws statement expression enough enough' none).bind fun xs ys => ?_
  refine .assume (fun _ _ before => before.1) ?_
  rintro ⟨exits, rfl, rfl, offsets⟩
  have close : q.InStep n m (q.runs .ended 0)
      (patchAll (exits.map Prod.fst).reverse : Compiling σ Unit)
      (patchAll (exits.map Prod.snd).reverse) (fun _ _ => q.runs .ended 0) := by
    rw [← List.map_reverse, ← List.map_reverse]
    exact patchAll_inStep laws exits.reverse fun x mem => offsets x (List.mem_reverse.1 mem)
  intro s w left right before
  obtain ⟨n, rfl⟩ := left.succ
  obtain ⟨m, rfl⟩ := right.succ
  refine bind (branch_inStep laws (.inr rfl)) (fun more more' => ?_) left right before.2
  refine .assume (fun _ _ before => before.1) ?_
  rintro rfl
  cases more with
  | true =>
    have last := (statement.mono (Nat.le_succ n) (Nat.le_succ m)).inStep.imp fun _ _ =>
      begins_of_inside (c := 0) laws
    exact (last.narrow.imp fun _ _ before => before.2.1 rfl).bind fun _ _ => close
  | false => exact close.imp fun _ _ before => before.2.2 rfl

def block (expr stmt : Compiling σ Unit) (fuel : Nat) : Compiling σ Unit := do
  act (modify Draft.enterBlock)
  andThen (blockBody (declaration expr stmt) fuel) .action Draft.leaveBlock

/-- Two drafts stay in step over a block if they do over the statements in it. -/
def Blocks (q : Survey) (N M : Nat) (expr : Compiling σ Unit) (expr' : Watched Unit) : Prop :=
  ∀ {n m : Nat} {stmt : Compiling σ Unit} {stmt' : Watched Unit}, n + 1 ≤ N → m + 1 ≤ M →
    q.Statements n m stmt stmt' → ∀ ⦃s w⦄, (draft s).Left (n + 1) → w.draft.Left (m + 1) →
    q.begins 0 (draft s) w → (draft s).current.kind = .leftBrace →
    q.Outcome (draft s).advance (become .action Draft.advance w) (fun _ _ => q.runs .ended 0)
      ((block expr stmt n).run (become .action Draft.advance s))
      ((block expr' stmt' m).run (become .action Draft.advance w))

theorem statement_statements (laws : q.Laws) {N M : Nat} {expr : Compiling σ Unit}
    {expr' : Watched Unit} (expression : ∀ j c, (q.pairing j).Begins N M c expr expr')
    (block : q.Blocks N M expr expr') {n m : Nat} (enough : n ≤ N) (enough' : m ≤ M) :
    q.Statements n m (statement expr n) (statement expr' m) := by
  induction n generalizing m with
  | zero =>
    intro s w left
    exact left.not_zero.elim
  | succ n ih =>
    intro s w left right before
    obtain ⟨m, rfl⟩ := right.succ
    have nested := ih (Nat.le_of_succ_le enough) (Nat.le_of_succ_le enough')
    have pairing := laws.pairing w.journal
    have same : (draft s).current.kind = (draft w).current.kind :=
      (pairing.same (pairing.current before)).1
    have within (j : List Activation) (c : Nat) : (q.pairing j).Begins n m c expr expr' :=
      (expression j c).mono (Nat.le_of_succ_le enough) (Nat.le_of_succ_le enough')
    -- The kind of the first token is looked at.
    obtain ⟨s₁, looked, draft₁⟩ : ∃ s₁ : σ, s₁ = become .action id s ∧ draft s₁ = draft s :=
      ⟨_, rfl, draft_become _ _ _⟩
    by_cases plain : (draft s).current.kind ∉ headwords
    · rw [run_statement_plain plain, run_statement_plain (same ▸ plain), ← looked, ← draft₁]
      rw [← draft₁] at left before
      exact .simple (Pairing.ended_course pairing (expression w.journal)
        (left.mono enough) (right.mono enough') before _ _)
    have known : (draft s).current.kind = .kwPrint ∨ (draft s).current.kind = .kwIf ∨
        (draft s).current.kind = .kwWhile ∨ (draft s).current.kind = .leftBrace := by
      simpa [headwords] using Decidable.not_not.1 plain
    rw [statement, statement, run_current_bind, run_current_bind, ← looked]
    rw [← same]
    -- A keyword is read, and the statement goes on with fewer tokens.
    have advanced := draft_become .action Draft.advance s₁
    rw [draft₁] at advanced
    have read {k : TokenKind} (kind : (draft s).current.kind = k) (plain : k ≠ .semicolon)
        (running : k ≠ .eof) (needs : k.needs = 0) :
        (draft (become .action Draft.advance s₁)).Left n ∧ w.draft.advance.Left m ∧
          q.runs .inside 0 (draft (become .action Draft.advance s₁))
            (become .action Draft.advance w) := by
      subst kind
      have inside := pairing.read before plain running
      rw [needs] at inside
      rw [advanced]
      exact ⟨left.read running, right.read (same ▸ running), inside⟩
    rcases known with kind | kind | kind | kind
    · obtain ⟨few, few', inside⟩ := read kind (by decide) (by decide) rfl
      rw [kind, ← advanced]
      dsimp only
      rw [run_advance_bind, run_advance_bind]
      refine .simple (Pairing.Course.after (Pairing.ended_course pairing (within w.journal) few few'
        (pairing.of_inside inside) _ _) ?_ ?_ rfl)
      · exact .advance few
      · exact .advance few'
    · obtain ⟨few, few', inside⟩ := read kind (by decide) (by decide) rfl
      rw [kind, ← advanced]
      dsimp only
      rw [run_advance_bind, run_advance_bind]
      exact ifStatement_inStep laws nested within (Nat.le_refl n) (Nat.le_refl m) few few' inside
    · obtain ⟨few, few', inside⟩ := read kind (by decide) (by decide) rfl
      rw [kind, ← advanced]
      dsimp only
      rw [run_advance_bind, run_advance_bind]
      exact while_inStep nested laws within few few' inside
    · rw [← draft₁] at left before kind
      rw [← draft₁, kind]
      dsimp only
      rw [run_advance_bind, run_advance_bind]
      exact block enough enough' nested left right before kind

/-- Two parsers of declarations, which always end well and have read a token then. -/
def Declarations (q : Survey) (n m : Nat) (x : Compiling σ Unit) (y : Watched Unit) : Prop :=
  ∀ ⦃s w⦄, (draft s).Left n → w.draft.Left m → q.begins 0 (draft s) w →
    ∀ {E}, Onward (draft s).advance (become .action Draft.advance w)
      (fun _ _ d' w' => q.between w'.journal d' w'.draft) E (x.run s) (y.run w)

theorem Declarations.mono {n m n' m' : Nat} {x : Compiling σ Unit} {y : Watched Unit}
    (h : q.Declarations n m x y) (left : n' ≤ n) (right : m' ≤ m) : q.Declarations n' m' x y :=
  fun _ _ few few' => h (few.mono left) (few'.mono right)

theorem Declarations.exists_ok {n m : Nat} {x : Compiling σ Unit} {y : Watched Unit}
    (h : q.Declarations n m x y) {s : σ} {w : Watch} (left : (draft s).Left n)
    (right : w.draft.Left m) (before : q.begins 0 (draft s) w) :
    ∃ s' w', x.run s = .ok () s' ∧ y.run w = .ok () w' ∧ (draft s).advance.Onto (draft s') ∧
      w.draft.advance.Onto w'.draft ∧ q.between w'.journal (draft s') w'.draft := by
  have step := h left right before (E := fun _ _ => False)
  obtain ⟨_, _, s', w', run, run', rest⟩ :=
    (Ends.imp step (fun _ _ _ _ => id) fun _ _ lost => lost.2.2).exists_ok
  exact ⟨s', w', run, run', rest⟩

theorem declaration_declarations (laws : q.Laws) {n m : Nat} {stmt : Compiling σ Unit}
    {stmt' : Watched Unit} (statement : q.Statements n m stmt stmt') {expr : Compiling σ Unit}
    {expr' : Watched Unit} (expression : ∀ j c, (q.pairing j).Begins n m c expr expr') :
    q.Declarations n m (declaration expr stmt) (declaration expr' stmt') := by
  intro s w left right before E
  have pairing := laws.pairing w.journal
  have same : (draft s).current.kind = (draft w).current.kind :=
    (pairing.same (pairing.current before)).1
  have body : q.Outcome (draft s).advance (become .action Draft.advance w)
      (fun _ _ => q.runs .ended 0)
      ((do if ← act (take .kwLet) then letDeclaration expr else stmt : Compiling σ Unit).run s)
      ((do if ← act (take .kwLet) then letDeclaration expr' else stmt' : Watched Unit).run w) := by
    rw [run_take_bind, run_take_bind]
    rw [← same]
    by_cases kind : (draft s).current.kind = .kwLet
    · rw [if_pos kind, if_pos kind]
      have inside := pairing.read before (by simp [kind]) (by simp [kind])
      rw [kind] at inside
      have few := left.advance.mono left.count
      rw [← draft_become .action Draft.advance s] at inside few ⊢
      exact .simple (w := become .action Draft.advance w) (Pairing.letDeclaration_inStep pairing (expression w.journal) few
        (right.advance.mono right.count) inside)
    · rw [if_neg kind, if_neg kind]
      have looked : draft (become .action id s) = draft s := draft_become _ _ _
      rw [← looked] at left before ⊢
      exact statement left right before
  rw [run_declaration_eq, run_declaration_eq]
  revert body
  generalize EStateM.run _ s = r, EStateM.run _ w = r'
  intro body
  cases r <;> cases r'
  · obtain ⟨onto, onto', ended⟩ := body
    refine ⟨?_, ⟨⟨onto'.left.ended, onto'.left.count⟩, onto'.depth⟩, ?_⟩
    all_goals rw [draft_become]
    · exact ⟨⟨onto.left.ended, onto.left.count⟩, onto.depth⟩
    · exact laws.finish before ended
  · exact body.elim
  · exact body.elim
  · obtain ⟨onto, onto', lost⟩ := body
    refine ⟨?_, onto'.synchronize, ?_⟩
    all_goals rw [draft_become]
    · exact onto.synchronize
    · exact laws.recover before lost

/-- What is asked where declarations follow each other up to a brace or the end. -/
structure Nested (q : Survey) : Prop where
  kind {j : List Activation} {d e : Draft} : q.between j d e → d.current.kind = e.current.kind
  again {j : List Activation} {d e : Draft} : q.between j d e → d.current.kind ≠ .eof →
    (q.pairing j).begins 0 d e
  enter {j : List Activation} {d e : Draft} : (q.pairing j).begins 0 d e →
    d.current.kind = .leftBrace → q.between j d.advance.enterBlock e.advance.enterBlock
  close {j : List Activation} {d e : Draft} : q.between j d e → 0 < d.scope.depth →
    d.current.kind = .rightBrace → (q.pairing j).runs .ended 0 d.advance.leaveBlock e.advance.leaveBlock
  unclosed {j : List Activation} {d e : Draft} {fault : SyntaxFault} : q.between j d e →
    0 < d.scope.depth → d.current.kind = .eof →
    (q.pairing j).lost (d.report d.current fault).leaveBlock (e.report e.current fault).leaveBlock

theorem blockBody_ends (nested : q.Nested) {n m k k' : Nat} {decl : Compiling σ Unit}
    {decl' : Watched Unit} (declaration : q.Declarations n m decl decl') (enough : n ≤ k)
    (enough' : m ≤ k') {s : σ} {w : Watch} (left : (draft s).Left n) (right : w.draft.Left m)
    (inner : 0 < (draft s).scope.depth) (before : q.between w.journal (draft s) w.draft) :
    Onward (draft s) w
      (fun _ _ d' w' => (q.pairing w'.journal).runs .ended 0 d'.leaveBlock w'.draft.leaveBlock)
      (fun d' w' => (q.pairing w'.journal).lost d'.leaveBlock w'.draft.leaveBlock)
      ((blockBody decl k).run s) ((blockBody decl' k').run w) := by
  induction k generalizing n m k' s w with
  | zero => exact (left.mono enough).not_zero.elim
  | succ k ih =>
    obtain ⟨k', rfl⟩ := (right.mono enough').succ
    have same : (draft s).current.kind = (draft w).current.kind := nested.kind before
    obtain ⟨s₁, looked, draft₁⟩ : ∃ s₁ : σ, s₁ = become .action id s ∧ draft s₁ = draft s :=
      ⟨_, rfl, draft_become _ _ _⟩
    rw [blockBody, blockBody, run_current_bind, run_current_bind, ← looked]
    dsimp only
    rw [← same]
    rw [← draft₁] at left inner before ⊢
    split
    · next stops =>
      rw [run_act_expect, run_act_expect]
      change Onward _ _ _ _ _ (if (draft w).current.kind = .rightBrace then _ else _)
      rw [← same, ← draft₁]
      by_cases closes : (draft s₁).current.kind = .rightBrace
      · rw [if_pos closes, if_pos closes]
        refine ⟨?_, .advance right, ?_⟩
        all_goals rw [draft_become]
        · exact .advance left
        · exact nested.close before inner closes
      · rw [if_neg closes, if_neg closes]
        have ends : (draft s₁).current.kind = .eof := by simpa [closes] using stops
        refine ⟨?_, .report right _ _, ?_⟩
        all_goals rw [draft_become]
        · exact .report left _ _
        · exact nested.unclosed before inner ends
    · next goes =>
      have running : (draft s₁).current.kind ≠ .eof := fun ends => goes (by simp [ends])
      obtain ⟨n, rfl⟩ := left.succ
      obtain ⟨m, rfl⟩ := right.succ
      have few := left.read running
      have few' := right.read (same ▸ draft₁ ▸ running)
      refine Onward.after (Onward.bind (declaration left right (nested.again before running)) ?_)
        (.advance left) (.advance right)
      intro _ _ s' w' onto onto' after
      have inner' : 0 < (draft s').scope.depth := by
        rw [onto.depth, Draft.advance_scope]
        exact inner
      exact ih (declaration.mono (Nat.le_succ n) (Nat.le_succ m))
        (Nat.le_of_succ_le_succ enough) (Nat.le_of_succ_le_succ enough') (onto.left.mono few.count)
        (onto'.left.mono few'.count) inner' after

theorem Nested.blocks (nested : q.Nested) (laws : q.Laws) {N M : Nat} {expr : Compiling σ Unit}
    {expr' : Watched Unit} (expression : ∀ j c, (q.pairing j).Begins N M c expr expr') :
    q.Blocks N M expr expr' := by
  intro n m stmt stmt' enough enough' statement s w left right before kind
  have pairing := laws.pairing w.journal
  have same := (pairing.same (pairing.current before)).1
  have few := left.read (by simp [kind])
  have few' := right.read (by simp [← same, kind])
  have within (j : List Activation) (c : Nat) : (q.pairing j).Begins n m c expr expr' :=
    (expression j c).mono (Nat.le_of_succ_le enough) (Nat.le_of_succ_le enough')
  obtain ⟨s₁, opened, draft₁⟩ : ∃ s₁ : σ,
      s₁ = become .action Draft.enterBlock (become .action Draft.advance s) ∧
      draft s₁ = (draft s).advance.enterBlock :=
    ⟨_, rfl, by rw [draft_become, draft_become]⟩
  have body := blockBody_ends nested (declaration_declarations laws statement within)
    (Nat.le_refl n) (Nat.le_refl m) (s := s₁)
    (w := become .action Draft.enterBlock (become .action Draft.advance w))
    (by rw [draft₁]; exact ⟨few.ended, few.count⟩) ⟨few'.ended, few'.count⟩
    (by rw [draft₁]; exact Nat.succ_pos _) (by rw [draft₁]; exact nested.enter before kind)
  rw [block, block, run_modify_bind, run_modify_bind, run_andThen, run_andThen, ← opened]
  rw [draft₁] at body
  revert body
  generalize EStateM.run _ s₁ = r, EStateM.run _ (become _ _ (become _ _ w)) = r'
  intro body
  cases r <;> cases r'
  · obtain ⟨onto, onto', after⟩ := body
    refine ⟨?_, .leaveBlock onto', ?_⟩
    all_goals rw [draft_become]
    · exact .leaveBlock onto
    · exact after
  · exact body.elim
  · exact body.elim
  · obtain ⟨onto, onto', after⟩ := body
    refine ⟨?_, .leaveBlock onto', ?_⟩
    all_goals rw [draft_become]
    · exact .leaveBlock onto
    · exact after

theorem text_declarations (laws : q.Laws) {n m : Nat}
    (block : q.Blocks n m (expression n .assignment : Compiling σ Unit) (expression m .assignment)) :
    q.Declarations n m
      (declaration (expression n .assignment) (statement (expression n .assignment) n) :
        Compiling σ Unit)
      (declaration (expression m .assignment) (statement (expression m .assignment) m)) := by
  have expression (j : List Activation) (c : Nat) :
      (q.pairing j).Begins n m c (expression n .assignment : Compiling σ Unit)
        (expression m .assignment) :=
    Pairing.expression_begins (laws.pairing j) n m c (by decide)
  exact declaration_declarations laws
    (statement_statements laws expression block (Nat.le_refl n) (Nat.le_refl m)) expression

theorem Nested.declarations (nested : q.Nested) (laws : q.Laws) (n m : Nat) :
    q.Declarations n m
      (declaration (expression n .assignment) (statement (expression n .assignment) n) :
        Compiling σ Unit)
      (declaration (expression m .assignment) (statement (expression m .assignment) m)) :=
  text_declarations laws (nested.blocks laws fun j c =>
    Pairing.expression_begins (laws.pairing j) n m c (by decide))

def Over (q : Survey) (d : Draft) (w : Watch) : Prop :=
  ∃ d₁ e₁, d₁.current.kind = .eof ∧ q.between w.journal d₁ e₁ ∧ d = d₁.advance ∧
    w.draft = e₁.advance

theorem declarations_ends (nested : q.Nested) {n m k k' : Nat} {decl : Compiling σ Unit}
    {decl' : Watched Unit} (declaration : q.Declarations n m decl decl') (enough : n ≤ k)
    (enough' : m ≤ k') {s : σ} {w : Watch} (left : (draft s).Left n) (right : w.draft.Left m)
    (before : q.between w.journal (draft s) w.draft) :
    Ends (fun _ _ s' => q.Over (draft s')) (fun _ _ => False) ((declarations decl k).run s)
      ((declarations decl' k').run w) := by
  induction k generalizing n m k' s w with
  | zero => exact (left.mono enough).not_zero.elim
  | succ k ih =>
    obtain ⟨k', rfl⟩ := (right.mono enough').succ
    have same := nested.kind before
    by_cases ends : (draft s).current.kind = .eof
    · have ends' : (draft w).current.kind = .eof := same ▸ ends
      rw [declarations, declarations, run_take_bind, run_take_bind, if_pos ends, if_pos ends']
      exact ⟨draft s, w.draft, ends, before, draft_become _ _ _, rfl⟩
    · obtain ⟨n, rfl⟩ := left.succ
      obtain ⟨m, rfl⟩ := right.succ
      have ends' : (draft w).current.kind ≠ .eof := same ▸ ends
      have few := left.read ends
      have few' := right.read ends'
      have begins := nested.again before ends
      have looked : draft (become .action id s) = draft s := draft_become _ _ _
      rw [← looked] at left begins
      obtain ⟨s', w', run, run', onto, onto', after⟩ := declaration.exists_ok left right begins
      rw [looked] at onto
      rw [run_declarations_more ends run, run_declarations_more ends' run']
      exact ih (declaration.mono (Nat.le_succ n) (Nat.le_succ m))
        (Nat.le_of_succ_le_succ enough) (Nat.le_of_succ_le_succ enough') (onto.left.mono few.count)
        (onto'.left.mono few'.count) after

theorem text_ends (laws : q.Laws) (nested : q.Nested) {n m : Nat} {s : σ} {w : Watch}
    (left : (draft s).Left n) (right : w.draft.Left m)
    (before : q.between w.journal (draft s) w.draft) :
    Ends (fun _ _ s' => q.Over (draft s')) (fun _ _ => False)
      ((text n : Compiling σ Unit).run s) ((Watched.text m).run w) :=
  declarations_ends nested (nested.declarations laws n m) (Nat.le_refl n) (Nat.le_refl m) left
    right before

end Survey

end StackScript
