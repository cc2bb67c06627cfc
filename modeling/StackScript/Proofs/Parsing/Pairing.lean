import StackScript.Proofs.Parsing.Blame
import StackScript.Proofs.Parsing.Derivation

/-! Two compilations side by side. What is asked of two drafts is a parameter here, with a law for
each thing that a compilation does to a draft; every single action then keeps any two drafts in step
for which the laws hold. -/

namespace StackScript

open Build Carrier

def TokenKind.needs : TokenKind → Nat
  | .identifier | .int | .float | .string => 1
  | _ => 0

namespace Scope

theorem markReady_depth (s : Scope) : s.markReady.depth = s.depth := by
  unfold markReady
  split <;> rfl

theorem declare?_depth (s : Scope) {name : Text} {s' : Scope} (h : s.declare? name = some s') :
    s'.depth = s.depth := by
  unfold declare? at h
  split at h
  · cases h
    rfl
  · cases h

end Scope

namespace Draft

structure Left (n : Nat) (d : Draft) : Prop where
  ended : d.Ended
  count : d.tokens.length ≤ n

/-- What a draft can become while it is read. The blocks that were entered are left again. -/
structure Onto (d d' : Draft) : Prop where
  left : d'.Left d.tokens.length
  depth : d'.scope.depth = d.scope.depth

structure Leads (d d' : Draft) : Prop extends Onto d d' where
  faults : d'.faults = d.faults

structure Still (d d' : Draft) : Prop where
  tokens : d'.tokens = d.tokens
  faults : d'.faults = d.faults
  depth : d'.scope.depth = d.scope.depth

variable {d d' d'' : Draft} {n m : Nat}

theorem Left.mono (h : d.Left n) (le : n ≤ m) : d.Left m := ⟨h.ended, Nat.le_trans h.count le⟩

theorem Left.self (h : d.Left n) : d.Left d.tokens.length := ⟨h.ended, Nat.le_refl _⟩

theorem Left.same (h : d.Left n) (tokens : d'.tokens = d.tokens) : d'.Left d.tokens.length :=
  ⟨h.ended.same tokens, Nat.le_of_eq (congrArg List.length tokens)⟩

theorem Left.read (h : d.Left (n + 1)) (running : d.current.kind ≠ .eof) : d.advance.Left n := by
  obtain ⟨split, ended⟩ := h.ended.advance running
  have length := congrArg List.length split
  have count := h.count
  rw [List.length_cons] at length
  exact ⟨ended, by omega⟩

theorem advance_of_eof (h : d.current.kind = .eof) : d.advance = { d with previous := d.current } :=
  if_pos h

theorem Left.advance (h : d.Left n) : d.advance.Left d.tokens.length := by
  by_cases running : d.current.kind = .eof
  · rw [advance_of_eof running]
    exact h.same rfl
  · exact (Left.read ⟨h.ended, Nat.le_succ _⟩ running)

theorem Left.not_zero (h : d.Left 0) : False := by
  have := List.length_pos_iff.2 d.tokens_ne_nil
  have := h.count
  omega

theorem Left.succ (h : d.Left n) : ∃ k, n = k + 1 :=
  Nat.exists_eq_succ_of_ne_zero fun none => (h.mono (Nat.le_of_eq none)).not_zero

theorem leaveBlock_scope (d : Draft) : d.leaveBlock.scope = d.scope.leave := by
  have pops (n : Nat) (d : Draft) : (emitPops n d).scope = d.scope := by
    induction n generalizing d with
    | zero => rfl
    | succ n ih => exact ih (d.emit .pop)
  exact pops _ _

theorem Onto.trans (h : d.Onto d') (h' : d'.Onto d'') : d.Onto d'' :=
  ⟨h'.left.mono h.left.count, h'.depth.trans h.depth⟩

theorem Onto.refl (h : d.Left n) : d.Onto d := ⟨h.self, rfl⟩

theorem Onto.advance (h : d.Left n) : d.Onto d.advance :=
  ⟨h.advance, congrArg Scope.depth d.advance_scope⟩

theorem Onto.report (h : d.Left n) (t : Token) (fault : SyntaxFault) : d.Onto (d.report t fault) :=
  ⟨h.same (d.report_tokens t fault), congrArg Scope.depth (d.report_scope t fault)⟩

theorem Leads.refl (h : d.Left n) : d.Leads d := ⟨.refl h, rfl⟩

theorem Leads.trans (h : d.Leads d') (h' : d'.Leads d'') : d.Leads d'' :=
  ⟨h.toOnto.trans h'.toOnto, h'.faults.trans h.faults⟩

theorem Leads.of_still (h : d.Left n) (still : d.Still d') : d.Leads d' :=
  ⟨⟨h.same still.tokens, still.depth⟩, still.faults⟩

theorem Leads.advance (h : d.Left n) : d.Leads d.advance := ⟨.advance h, d.advance_faults.1⟩

end Draft

theorem Place.emitGet_still (x : Place) (t : Token) (d : Draft) : d.Still (x.emitGet t d) := by
  cases x <;> exact ⟨rfl, rfl, rfl⟩

theorem Place.emitSet_still (x : Place) (t : Token) (d : Draft) : d.Still (x.emitSet t d) := by
  cases x <;> exact ⟨rfl, rfl, rfl⟩

def Ends {σ τ α β : Type} (B : α → β → σ → τ → Prop) (E : σ → τ → Prop) :
    EStateM.Result GivenUp σ α → EStateM.Result GivenUp τ β → Prop
  | .ok a d, .ok b e => B a b d e
  | .error _ d, .error _ e => E d e
  | _, _ => False

section

variable {σ τ α β γ δ : Type} {B B' : α → β → σ → τ → Prop} {C : γ → δ → σ → τ → Prop}
  {E E' : σ → τ → Prop}

theorem Ends.imp {r : EStateM.Result GivenUp σ α} {r' : EStateM.Result GivenUp τ β}
    (h : Ends B E r r') (well : ∀ a b d e, B a b d e → B' a b d e) (ill : ∀ d e, E d e → E' d e) :
    Ends B' E' r r' := by
  cases r <;> cases r'
  · exact well _ _ _ _ h
  · exact h
  · exact h
  · exact ill _ _ h

theorem Ends.exists_ok {r : EStateM.Result GivenUp σ α} {r' : EStateM.Result GivenUp τ β}
    (h : Ends B (fun _ _ => False) r r') :
    ∃ a b d e, r = .ok a d ∧ r' = .ok b e ∧ B a b d e := by
  cases r <;> cases r'
  · exact ⟨_, _, _, _, rfl, rfl, h⟩
  all_goals exact h.elim

theorem Ends.bind {x : EStateM GivenUp σ α} {y : EStateM GivenUp τ β}
    {f : α → EStateM GivenUp σ γ} {g : β → EStateM GivenUp τ δ} {d : σ} {e : τ}
    (first : Ends B E (x.run d) (y.run e))
    (second : ∀ a b d' e', B a b d' e' → Ends C E ((f a).run d') ((g b).run e')) :
    Ends C E ((x >>= f).run d) ((y >>= g).run e) := by
  rw [EStateM.run_bind, EStateM.run_bind]
  revert first
  generalize x.run d = r, y.run e = r'
  intro first
  cases r <;> cases r'
  · exact second _ _ _ _ first
  · exact first.elim
  · exact first.elim
  · exact first

end

/-- How far a statement is. Its semicolon is the end of it. -/
inductive Stage where
  | inside
  | ended

/-- What is asked of two drafts before a statement or an expression, while it is read and after, and
where it is given up. The drafts may have promised constants to tokens that were read. -/
structure Pairing where
  begins : (promised : Nat) → Draft → Draft → Prop
  runs : Stage → (promised : Nat) → Draft → Draft → Prop
  lost : Draft → Draft → Prop
  known : Draft → Draft → Token → Token → Prop
  offset : Nat → Nat → Prop
  stored : Place → Place → Prop

namespace Pairing

def Outcome (p : Pairing) {α β : Type} (d e : Draft) (B : α → β → Draft → Draft → Prop) :
    EStateM.Result GivenUp Draft α → EStateM.Result GivenUp Draft β → Prop :=
  Ends (fun a b d' e' => d.Leads d' ∧ e.Leads e' ∧ B a b d' e')
    (fun d' e' => d.Onto d' ∧ e.Onto e' ∧ p.lost d' e')

structure Laws (p : Pairing) : Prop where
  of_inside {c : Nat} {d e : Draft} : p.runs .inside c d e → p.begins c d e
  scope {c : Nat} {d e : Draft} : p.begins c d e → d.scope = e.scope
  current {c : Nat} {d e : Draft} : p.begins c d e → p.known d e d.current e.current
  previous {s : Stage} {c : Nat} {d e : Draft} : p.runs s c d e → p.known d e d.previous e.previous
  same {d e : Draft} {t u : Token} : p.known d e t u → t.kind = u.kind ∧ t.lexeme = u.lexeme
  keep {d d' e e' : Draft} {t u : Token} : p.known d e t u → d.Leads d' → e.Leads e' →
    p.known d' e' t u
  spare {s : Stage} {c : Nat} {d e : Draft} : p.runs s (c + 1) d e → p.runs s c d e
  /-- A token is read that can belong to a statement without ending it. -/
  read {c : Nat} {d e : Draft} : p.begins c d e → d.current.kind ≠ .semicolon →
    d.current.kind ≠ .eof → p.runs .inside (c + d.current.kind.needs) d.advance e.advance
  /-- A token is read that cannot begin anything. -/
  refuse {c : Nat} {d e : Draft} {fault : SyntaxFault} : p.begins c d e →
    d.current.kind = .semicolon ∨ d.current.kind = .eof →
    p.lost (d.advance.report d.current fault) (e.advance.report e.current fault)
  stop {c : Nat} {d e : Draft} : p.runs .inside c d e → d.current.kind = .semicolon →
    p.runs .ended c d.advance e.advance
  fail {s : Stage} {c : Nat} {d e : Draft} {t u : Token} {fault : SyntaxFault} : p.runs s c d e →
    p.known d e t u → p.lost (d.report t fault) (e.report u fault)
  emit {s : Stage} {c : Nat} {d e : Draft} {op : Opcode} : p.runs s c d e →
    p.runs s c (d.emit op) (e.emit op)
  emitAt {s : Stage} {c : Nat} {d e : Draft} {op : Opcode} {t u : Token} : p.runs s c d e →
    p.known d e t u → p.runs s c (d.emitAt op t) (e.emitAt op u)
  slot {n : Nat} : p.stored (.slot n) (.slot n)
  emitGet {s : Stage} {c : Nat} {d e : Draft} {x y : Place} {t u : Token} : p.runs s c d e →
    p.stored x y → p.known d e t u → p.runs s c (x.emitGet t d) (y.emitGet u e)
  emitSet {s : Stage} {c : Nat} {d e : Draft} {x y : Place} {t u : Token} : p.runs s c d e →
    p.stored x y → p.known d e t u → p.runs s c (x.emitSet t d) (y.emitSet u e)
  define {s : Stage} {c i j : Nat} {d e : Draft} : p.runs s c d e →
    p.stored (.global i) (.global j) →
    p.runs s c (d.emitWide .defGlobal i) (e.emitWide .defGlobal j)
  jump {s : Stage} {c : Nat} {d e : Draft} {op : Opcode} : p.runs s c d e →
    p.offset ((d.emitOpenJump op).chunk.code.size - 2) ((e.emitOpenJump op).chunk.code.size - 2) ∧
      p.runs s c (d.emitOpenJump op) (e.emitOpenJump op)
  patch {s : Stage} {c i j : Nat} {d e : Draft} : p.runs s c d e → p.offset i j →
    d.chunk.code.size - i - 2 = e.chunk.code.size - j - 2 ∧
      ∀ n, p.runs s c { d with chunk := d.chunk.patchWide i n }
        { e with chunk := e.chunk.patchWide j n }
  start {c : Nat} {d e : Draft} : p.begins c d e → p.offset d.chunk.code.size e.chunk.code.size
  loop {s : Stage} {c i j : Nat} {d e : Draft} : p.runs s c d e → p.offset i j →
    (d.emit .loop).chunk.code.size + 2 - i = (e.emit .loop).chunk.code.size + 2 - j ∧
      ∀ n, p.runs s c ((d.emit .loop).writeWide n d.line) ((e.emit .loop).writeWide n e.line)
  constant {s : Stage} {c : Nat} {d e : Draft} {v : Value} : p.runs s (c + 1) d e →
    d.chunk.hasRoom = e.chunk.hasRoom ∧
      (d.chunk.hasRoom = true → p.runs s c { d with chunk := d.chunk.writeConstant v d.line }
        { e with chunk := e.chunk.writeConstant v e.line })
  name {s : Stage} {c : Nat} {d e : Draft} {t u : Token} : p.runs s (c + 1) d e → p.known d e t u →
    p.Outcome d e (fun i j d' e' => p.stored (.global i) (.global j) ∧ p.runs s c d' e')
      ((nameConstant t).run d) ((nameConstant u).run e)
  declare {c : Nat} {d e : Draft} {name : Text} {scope : Scope} : p.runs .inside c d e →
    d.scope.depth ≠ 0 → d.scope.declaredHere name = false → d.scope.declare? name = some scope →
    p.runs .inside c { d with scope } { e with scope }
  ready {c : Nat} {d e : Draft} : p.runs .ended c d e →
    p.runs .ended c { d with scope := d.scope.markReady } { e with scope := e.scope.markReady }
  ready_lost {d e : Draft} : p.lost d e →
    p.lost { d with scope := d.scope.markReady } { e with scope := e.scope.markReady }
  /-- Behind a statement only a further arm of an `if` can be read. -/
  branch {c : Nat} {d e : Draft} {k : TokenKind} : p.runs .ended c d e → k = .kwElif ∨ k = .kwElse →
    (d.current.kind = k ↔ e.current.kind = k) ∧
      (d.current.kind = k → p.runs .inside c d.advance e.advance)

variable {p : Pairing} {α β γ δ : Type}

/-- Two actions take any two drafts that are in step, with not too much to read, to drafts that are
in step again. -/
def Acts (p : Pairing) (n m : Nat) (A : Draft → Draft → Prop) (x : Build α) (y : Build β)
    (B : α → β → Draft → Draft → Prop) : Prop :=
  ∀ ⦃d e⦄, d.Left n → e.Left m → A d e → p.Outcome d e B (x.run d) (y.run e)

namespace Acts

variable {n m : Nat} {A : Draft → Draft → Prop} {B : α → β → Draft → Draft → Prop}

theorem of_modify {f g : Draft → Draft} {B : Draft → Draft → Prop}
    (still : ∀ d : Draft, d.Still (f d)) (still' : ∀ e : Draft, e.Still (g e))
    (h : ∀ d e, A d e → B (f d) (g e)) :
    p.Acts n m A (modify f) (modify g) (fun (_ _ : Unit) => B) :=
  fun d e left right before =>
    ⟨.of_still left (still d), .of_still right (still' e), h d e before⟩

variable {s : Stage} {c : Nat} {t u : Token} (laws : p.Laws)

include laws

theorem of_emit (op : Opcode) :
    p.Acts n m (p.runs s c) (emit op) (emit op) (fun _ _ => p.runs s c) :=
  of_modify (fun _ => ⟨rfl, rfl, rfl⟩) (fun _ => ⟨rfl, rfl, rfl⟩) fun _ _ => laws.emit

theorem of_emitAt (op : Opcode) :
    p.Acts n m (fun d e => p.runs s c d e ∧ p.known d e t u) (modify (·.emitAt op t))
      (modify (·.emitAt op u)) (fun _ _ => p.runs s c) :=
  of_modify (fun _ => ⟨rfl, rfl, rfl⟩) (fun _ => ⟨rfl, rfl, rfl⟩)
    fun _ _ before => laws.emitAt before.1 before.2

theorem of_fail (fault : SyntaxFault) :
    p.Acts n m (fun d e => p.runs s c d e ∧ p.known d e t u) (fail t fault) (fail u fault) B := by
  rintro d e left right ⟨before, known⟩
  exact ⟨.report left t fault, .report right u fault, laws.fail before known⟩

theorem of_jump (op : Opcode) :
    p.Acts n m (p.runs s c) (emitJump op) (emitJump op)
      (fun i j d e => p.offset i j ∧ p.runs s c d e) := by
  intro d e left right before
  have still (d : Draft) : d.Still (d.emitOpenJump op) := ⟨rfl, rfl, rfl⟩
  exact ⟨.of_still left (still d), .of_still right (still e), laws.jump before⟩

theorem of_patch {i j : Nat} :
    p.Acts n m (fun d e => p.offset i j ∧ p.runs s c d e) (patchJump i) (patchJump j)
      (fun _ _ => p.runs s c) := by
  rintro d e left right ⟨offset, before⟩
  obtain ⟨same, patched⟩ := laws.patch before offset
  rw [run_patchJump, run_patchJump, same]
  split
  · exact of_fail laws _ left right ⟨before, laws.previous before⟩
  · exact ⟨.of_still left ⟨rfl, rfl, rfl⟩, .of_still right ⟨rfl, rfl, rfl⟩, patched _⟩

theorem of_loop {i j : Nat} :
    p.Acts n m (fun d e => p.offset i j ∧ p.runs s c d e) (emitLoop i) (emitLoop j)
      (fun _ _ => p.runs s c) := by
  rintro d e left right ⟨offset, before⟩
  obtain ⟨same, closed⟩ := laws.loop before offset
  rw [run_emitLoop, run_emitLoop, same]
  split
  · have emitted : p.runs s c (d.emit .loop) (e.emit .loop) := laws.emit before
    have onto {d : Draft} {n : Nat} (left : d.Left n) :
        d.Onto ((d.emit .loop).report d.previous .loopTooLarge) := by
      have emitted : d.Leads (d.emit .loop) := .of_still left ⟨rfl, rfl, rfl⟩
      exact emitted.toOnto.trans (.report emitted.left _ _)
    exact ⟨onto left, onto right, laws.fail emitted (laws.previous emitted)⟩
  · exact ⟨.of_still left ⟨rfl, rfl, rfl⟩, .of_still right ⟨rfl, rfl, rfl⟩, closed _⟩

theorem of_constant (v : Value) :
    p.Acts n m (p.runs s (c + 1)) (emitConstant v) (emitConstant v) (fun _ _ => p.runs s c) := by
  intro d e left right before
  obtain ⟨same, written⟩ := laws.constant (v := v) before
  rw [run_emitConstant, run_emitConstant, ← same]
  split
  · next room =>
    exact ⟨.of_still left ⟨rfl, rfl, rfl⟩, .of_still right ⟨rfl, rfl, rfl⟩, written room⟩
  · exact of_fail laws _ left right ⟨before, laws.previous before⟩

theorem of_name :
    p.Acts n m (fun d e => p.runs s (c + 1) d e ∧ p.known d e t u) (nameConstant t) (nameConstant u)
      (fun i j d e => p.stored (.global i) (.global j) ∧ p.runs s c d e) :=
  fun _ _ _ _ before => laws.name before.1 before.2

theorem of_place :
    p.Acts n m (fun d e => p.runs .inside (c + 1) d e ∧ p.known d e t u) (place t) (place u)
      (fun x y d e => p.stored x y ∧ p.runs .inside c d e) := by
  rintro d e left right ⟨before, known⟩
  rw [run_place, run_place, ← laws.scope (laws.of_inside before), ← (laws.same known).2]
  cases d.scope.resolve? t.lexeme with
  | some found =>
    obtain ⟨slot, l⟩ := found
    dsimp only
    split
    · exact ⟨.refl left, .refl right, laws.slot, laws.spare before⟩
    · exact of_fail laws _ left right ⟨before, known⟩
  | none =>
    have outcome := laws.name before known
    revert outcome
    generalize (nameConstant t).run d = r, (nameConstant u).run e = r'
    cases r <;> cases r'
    all_goals exact id

theorem of_previous (runs : ∀ d e, A d e → p.runs s c d e) :
    p.Acts n m A previous previous (fun t u d e => A d e ∧ p.known d e t u) :=
  fun _ _ left right before => ⟨.refl left, .refl right, before, laws.previous (runs _ _ before)⟩

theorem of_current (begins : ∀ d e, A d e → p.begins c d e) :
    p.Acts n m A current current
      (fun t u d e => A d e ∧ t = d.current ∧ p.known d e t u) :=
  fun _ _ left right before =>
    ⟨.refl left, .refl right, before, rfl, laws.current (begins _ _ before)⟩

theorem of_advance (kind : TokenKind) (plain : kind ≠ .semicolon) (running : kind ≠ .eof) :
    p.Acts n m (fun d e => p.begins c d e ∧ d.current.kind = kind) advance advance
      (fun _ _ => p.runs .inside (c + kind.needs)) := by
  rintro d e left right ⟨before, rfl⟩
  exact ⟨.advance left, .advance right, laws.read before plain running⟩

theorem of_expect (kind : TokenKind) (plain : kind ≠ .semicolon) (running : kind ≠ .eof)
    (fault : SyntaxFault) :
    p.Acts n m (p.runs .inside c) (expect kind fault) (expect kind fault)
      (fun _ _ => p.runs .inside (c + kind.needs)) := by
  intro d e left right before
  have begins := laws.of_inside before
  have known := laws.current begins
  rw [run_expect, run_expect, ← (laws.same known).1]
  split
  · next found =>
    exact of_advance laws kind plain running left right ⟨begins, found⟩
  · exact of_fail laws _ left right ⟨before, known⟩

theorem of_stop (fault : SyntaxFault) :
    p.Acts n m (p.runs .inside c) (expect .semicolon fault) (expect .semicolon fault)
      (fun _ _ => p.runs .ended c) := by
  intro d e left right before
  have known := laws.current (laws.of_inside before)
  rw [run_expect, run_expect, ← (laws.same known).1]
  split
  · next found => exact ⟨.advance left, .advance right, laws.stop before found⟩
  · exact of_fail laws _ left right ⟨before, known⟩

theorem of_take {kind : TokenKind} (plain : kind ≠ .semicolon) (running : kind ≠ .eof)
    (needs : kind.needs = 0) :
    p.Acts n m (p.runs .inside c) (take kind) (take kind)
      (fun a b d e => a = b ∧ p.runs .inside c d e) := by
  intro d e left right before
  have begins := laws.of_inside before
  rw [run_take, run_take, ← (laws.same (laws.current begins)).1]
  split
  · next found =>
    obtain ⟨leads, leads', after⟩ := of_advance laws kind plain running left right ⟨begins, found⟩
    rw [needs] at after
    exact ⟨leads, leads', rfl, after⟩
  · exact ⟨.refl left, .refl right, rfl, before⟩

theorem of_branch {kind : TokenKind} (arm : kind = .kwElif ∨ kind = .kwElse) :
    p.Acts (n + 1) (m + 1) (p.runs .ended c) (take kind) (take kind)
      (fun a b d e => a = b ∧ (a = true → (d.Left n ∧ e.Left m) ∧ p.runs .inside c d e) ∧
        (a = false → p.runs .ended c d e)) := by
  intro d e left right before
  obtain ⟨same, read⟩ := laws.branch before arm
  have running {k : TokenKind} (found : k = kind) : k ≠ .eof := by
    rcases arm with rfl | rfl
    all_goals simp [found]
  rw [run_take, run_take]
  by_cases more : d.current.kind = kind
  · rw [if_pos more, if_pos (same.1 more)]
    have few := And.intro (left.read (running more)) (right.read (running (same.1 more)))
    exact ⟨.advance left, .advance right, rfl, fun _ => ⟨few, read more⟩, nofun⟩
  · rw [if_neg more, if_neg (more ∘ same.2)]
    exact ⟨.refl left, .refl right, rfl, nofun, fun _ => before⟩

end Acts

end Pairing

/-- What is asked of a single draft, which is compared with itself. -/
structure Alone where
  begins : Draft → Prop
  runs : Draft → Prop
  lost : Draft → Prop
  known : Draft → Token → Prop

namespace Alone

def pairing (q : Alone) : Pairing where
  begins _ d e := d = e ∧ q.begins d
  runs _ _ d e := d = e ∧ q.runs d
  lost d e := d = e ∧ q.lost d
  known d _ t u := t = u ∧ q.known d t
  offset := Eq
  stored := Eq

/-- What is written to code and constants is not looked at, and neither are the names of locals. -/
structure Laws (q : Alone) : Prop where
  ended {d : Draft} : q.runs d → d.Ended
  begins {d : Draft} : q.runs d → q.begins d
  current {d : Draft} : q.begins d → q.known d d.current
  previous {d : Draft} : q.runs d → q.known d d.previous
  keep {d d' : Draft} {t : Token} : q.known d t → d.Leads d' → q.known d' t
  read {d : Draft} : q.begins d → d.current.kind ≠ .eof → q.runs d.advance
  refuse {d : Draft} {fault : SyntaxFault} : q.begins d → q.lost (d.advance.report d.current fault)
  fail {d : Draft} {t : Token} {fault : SyntaxFault} : q.runs d → q.known d t → q.lost (d.report t fault)
  write {d d' : Draft} : q.runs d → d.SameReading d' → d'.scope.depth = d.scope.depth → q.runs d'
  write_lost {d d' : Draft} : q.lost d → d.SameReading d' → d'.scope.depth = d.scope.depth → q.lost d'

theorem laws {q : Alone} (h : q.Laws) : q.pairing.Laws where
  of_inside before := ⟨before.1, h.begins before.2⟩
  scope before := congrArg Draft.scope before.1
  current before := ⟨congrArg Draft.current before.1, h.current before.2⟩
  previous before := ⟨congrArg Draft.previous before.1, h.previous before.2⟩
  same known := ⟨congrArg Token.kind known.1, congrArg Token.lexeme known.1⟩
  keep known leads _ := ⟨known.1, h.keep known.2 leads⟩
  spare := id
  read := by
    rintro _ d _ ⟨rfl, before⟩ _ running
    exact ⟨rfl, h.read before running⟩
  refuse := by
    rintro _ d _ fault ⟨rfl, before⟩ _
    exact ⟨rfl, h.refuse before⟩
  stop := by
    rintro _ d _ ⟨rfl, before⟩ kind
    exact ⟨rfl, h.read (h.begins before) (by simp [kind])⟩
  fail := by
    rintro _ _ d _ t _ fault ⟨rfl, before⟩ ⟨rfl, known⟩
    exact ⟨rfl, h.fail before known⟩
  emit := by
    rintro _ _ d _ op ⟨rfl, before⟩
    exact ⟨rfl, h.write before ⟨rfl, rfl, rfl, rfl⟩ rfl⟩
  emitAt := by
    rintro _ _ d _ op t _ ⟨rfl, before⟩ ⟨rfl, _⟩
    exact ⟨rfl, h.write before ⟨rfl, rfl, rfl, rfl⟩ rfl⟩
  slot := rfl
  emitGet := by
    rintro _ _ d _ x _ t _ ⟨rfl, before⟩ rfl ⟨rfl, _⟩
    refine ⟨rfl, h.write before ?_ (x.emitGet_still t d).depth⟩
    cases x <;> exact ⟨rfl, rfl, rfl, rfl⟩
  emitSet := by
    rintro _ _ d _ x _ t _ ⟨rfl, before⟩ rfl ⟨rfl, _⟩
    refine ⟨rfl, h.write before ?_ (x.emitSet_still t d).depth⟩
    cases x <;> exact ⟨rfl, rfl, rfl, rfl⟩
  define := by
    rintro _ _ i _ d _ ⟨rfl, before⟩ ⟨⟩
    exact ⟨rfl, h.write before ⟨rfl, rfl, rfl, rfl⟩ rfl⟩
  jump := by
    rintro _ _ d _ op ⟨rfl, before⟩
    exact ⟨rfl, rfl, h.write before ⟨rfl, rfl, rfl, rfl⟩ rfl⟩
  patch := by
    rintro _ _ i _ d _ ⟨rfl, before⟩ rfl
    exact ⟨rfl, fun _ => ⟨rfl, h.write before ⟨rfl, rfl, rfl, rfl⟩ rfl⟩⟩
  start before := congrArg (fun d : Draft => d.chunk.code.size) before.1
  loop := by
    rintro _ _ i _ d _ ⟨rfl, before⟩ rfl
    exact ⟨rfl, fun _ => ⟨rfl, h.write before ⟨rfl, rfl, rfl, rfl⟩ rfl⟩⟩
  constant := by
    rintro _ _ d _ v ⟨rfl, before⟩
    exact ⟨rfl, fun _ => ⟨rfl, h.write before ⟨rfl, rfl, rfl, rfl⟩ rfl⟩⟩
  name := by
    rintro _ _ d _ t _ ⟨rfl, before⟩ ⟨rfl, known⟩
    have left : d.Left d.tokens.length := ⟨h.ended before, Nat.le_refl _⟩
    rw [run_nameConstant]
    split
    · exact ⟨.refl left, .refl left, rfl, rfl, before⟩
    · split
      · have leads {d' : Draft} (still : d.Still d') : d.Leads d' := .of_still left still
        exact ⟨leads ⟨rfl, rfl, rfl⟩, leads ⟨rfl, rfl, rfl⟩, rfl, rfl,
          h.write before ⟨rfl, rfl, rfl, rfl⟩ rfl⟩
      · exact ⟨.report left _ _, .report left _ _, rfl, h.fail before known⟩
  declare := by
    rintro _ d _ name scope ⟨rfl, before⟩ _ _ declared
    exact ⟨rfl, h.write before ⟨rfl, rfl, rfl, rfl⟩ (d.scope.declare?_depth declared)⟩
  ready := by
    rintro _ d _ ⟨rfl, before⟩
    exact ⟨rfl, h.write before ⟨rfl, rfl, rfl, rfl⟩ d.scope.markReady_depth⟩
  ready_lost := by
    rintro d _ ⟨rfl, before⟩
    exact ⟨rfl, h.write_lost before ⟨rfl, rfl, rfl, rfl⟩ d.scope.markReady_depth⟩
  branch := by
    rintro _ d _ k ⟨rfl, before⟩ arm
    refine ⟨Iff.rfl, fun kind => ⟨rfl, h.read (h.begins before) ?_⟩⟩
    rcases arm with rfl | rfl
    all_goals simp [kind]

end Alone

end StackScript
