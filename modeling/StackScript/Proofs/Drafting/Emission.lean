import StackScript.Proofs.Assembly.Rules
import StackScript.Proofs.Drafting.Exact

/-! Compilation along an expression writes its fragment. It ends well exactly when the
literals have values, no variable is read in its own initial value, every jump fits its
operand, and the pool has room. -/

namespace StackScript

open Build Fragment

/-- From one scope to another, with constants known that the pool begins with, the step
writes the fragment: exactly under the law, and as far as jumps and pool allow. -/
def Emits (known : List Value) (s s' : Scope) (x : Build Unit) (law : Prop) (f : Fragment) : Prop :=
  ∀ ⦃d : Draft⦄, d.Ready → d.scope = s → known <+: d.pool →
    Exactly (law ∧ f.Fits ∧ d.Holds f.uses) (fun _ d' => Drafted d d' f ∧ d'.scope = s') (x.run d)

namespace Emits

variable {known : List Value} {s s₁ s₂ : Scope} {x y : Build Unit} {p q : Prop} {f g : Fragment}

theorem congr {f' : Fragment} (h : Emits known s s₁ x p f) (law : p ↔ q) (same : f = f') :
    Emits known s s₁ x q f' := by
  subst same
  intro d ready scope grown
  exact (h ready scope grown).imp (and_congr_left fun _ => law) fun _ _ _ => id

theorem after {base d : Draft} (h : Emits known s s₁ x q g) (drafted : Drafted base d f)
    (scope : d.scope = s) (grown : known <+: d.pool) (law : p) (fits : f.Fits) :
    Exactly ((p ∧ q) ∧ (f ++ g).Fits ∧ base.Holds (f ++ g).uses)
      (fun _ d' => Drafted base d' (f ++ g) ∧ d'.scope = s₁) (x.run d) := by
  refine (h drafted.ready scope grown).imp ?_ fun _ d' _ post => ⟨drafted.trans post.1, post.2⟩
  rw [fits_append, uses_append, drafted.holds_append]
  simp only [law, fits, true_and]

theorem bind_of (first : Emits known s s₁ x p f) (second : p → Emits known s₁ s₂ y q g) :
    Emits known s s₂ (do x; y) (p ∧ q) (f ++ g) := by
  intro d ready scope grown
  refine (first ready scope grown).bind ?_ ?_
  · rintro ⟨law, fits, holds⟩
    exact ⟨law.1, ((fits_append f g).1 fits).1, holds.left⟩
  · rintro ⟨law, fits, _⟩ _ d₁ ⟨drafted, scope₁⟩
    exact (second law).after drafted scope₁ (grown.trans drafted.grows) law fits

theorem bind (first : Emits known s s₁ x p f) (second : Emits known s₁ s₂ y q g) :
    Emits known s s₂ (do x; y) (p ∧ q) (f ++ g) := first.bind_of fun _ => second

theorem of_modify {step : Draft → Draft} (fits : f.Fits)
    (h : ∀ d : Draft, d.Ready → d.scope = s → known <+: d.pool →
      Drafted d (step d) f ∧ (step d).scope = s₁) :
    Emits known s s₁ (modify step) True f := by
  intro d ready scope grown
  obtain ⟨drafted, scope₁⟩ := h d ready scope grown
  exact ⟨⟨trivial, fits, drafted.holds⟩, drafted, scope₁⟩

theorem of_advance : Emits known s s advance True (of []) := by
  refine of_modify fits_of_nil fun d ready scope _ => ?_
  obtain ⟨read, same⟩ := Drafted.advance ready
  exact ⟨read, same.trans scope⟩

theorem bind_true (first : Emits known s s₁ x True f) (second : Emits known s₁ s₂ y q g) :
    Emits known s s₂ (do x; y) q (f ++ g) :=
  (first.bind second).congr (iff_of_eq (true_and _)) rfl

theorem true_bind (first : Emits known s s₁ x p f) (second : Emits known s₁ s₂ y True g) :
    Emits known s s₂ (do x; y) p (f ++ g) :=
  (first.bind second).congr (iff_of_eq (and_true _)) rfl

theorem advance_left (h : Emits known s s₁ x p f) : Emits known s s₁ (do advance; x) p f :=
  (of_advance.bind_true h).congr Iff.rfl (of_nil_append f)

theorem advance_right (h : Emits known s s₁ x p f) : Emits known s s₁ (do x; advance) p f :=
  (h.true_bind of_advance).congr Iff.rfl (append_of_nil f)

theorem of_emit {op : Opcode} (plain : op.operandWidth = 0) :
    Emits known s s (emit op) True (of [.plain op]) :=
  of_modify (by simp [Asm.distance]) fun _ ready scope _ => ⟨.emit ready plain, scope⟩

theorem of_emitAt {op : Opcode} (plain : op.operandWidth = 0) (t : Token) :
    Emits known s s (modify (·.emitAt op t)) True (blaming (.plain op) t) :=
  of_modify (by simp [blaming, Asm.distance]) fun _ ready scope _ => ⟨.emitAt ready plain t, scope⟩

theorem of_emitFor {op : Option Opcode} (plain : ∀ o ∈ op, o.operandWidth = 0) (t : Token) :
    Emits known s s (emitFor op t) True (operation op t) := by
  cases op with
  | some op => exact of_emitAt (plain op rfl) t
  | none =>
    intro d ready scope _
    exact ⟨⟨trivial, fits_of_nil, ready.room⟩, .refl ready, scope⟩

theorem of_emitConstant {v : Value} (h : ∀ x, v ≠ .name x) :
    Emits known s s (emitConstant v) True (constant v) := by
  intro d ready scope _
  refine (exactly_emitConstant h ready).imp ?_ fun _ d' _ post => ⟨post.1, post.2.trans scope⟩
  simp [constant, Fits, Asm.distance]

theorem of_fail (t : Token) (fault : SyntaxFault) (refused : ¬ p) :
    Emits known s s₁ (fail t fault) p f := fun _ _ _ _ h => refused h.1

theorem of_literal (t : Token) :
    Emits known s s (Build.literal t) t.value?.isSome (Fragment.literal t) := by
  obtain ⟨kind, lexeme, span⟩ := t
  cases kind with
  | string =>
    simp only [Build.literal, Fragment.literal, Token.value?, stringLiteral]
    cases Literal.unescape lexeme with
    | ok text => exact (of_emitConstant (by simp)).congr (by simp [Except.toOption]) rfl
    | error fault => exact of_fail _ _ (by simp [Except.toOption])
  | int =>
    simp only [Build.literal, Fragment.literal, Token.value?, integerLiteral]
    cases Number.readInt64 lexeme with
    | some n => exact (of_emitConstant (by simp)).congr (by simp) rfl
    | none => exact of_fail _ _ (by simp)
  | float =>
    simp only [Build.literal, Fragment.literal, Token.value?, floatLiteral]
    cases Number.readFloat lexeme with
    | some x => exact (of_emitConstant (by simp)).congr (by simp) rfl
    | none => exact of_fail _ _ (by simp)
  | _ => exact (of_emit rfl).congr (by simp [Token.value?]) rfl

theorem placed {t : Token} {pending : Option Text} {locals : List Text}
    (shows : s.Shows pending locals) {x : Place → Build Unit}
    (h : ∀ p pool, p.Denotes pool (locate t.lexeme locals) → known <+: pool →
      Emits pool s s₁ (x p) q g) :
    Emits known s s₁ (do let p ← place t; x p) (pending ≠ some t.lexeme ∧ q)
      (needing (locate t.lexeme locals).uses ++ g) := by
  rintro d ready rfl grown
  refine (exactly_place t ready shows).bind ?_ ?_
  · rintro ⟨law, _, holds⟩
    exact ⟨law.1, holds.left⟩
  · rintro ⟨settled, _⟩ p d₁ ⟨drafted, scope, denotes⟩
    exact (h p d₁.pool denotes (grown.trans drafted.grows)).after drafted scope List.prefix_rfl
      settled (by simp [Fits])

theorem of_emitGet {p : Place} {l : Location} (denotes : p.Denotes known l) (t : Token) :
    Emits known s s (modify (p.emitGet t)) True (blaming (.get l) t) :=
  of_modify (by simp [blaming, Asm.distance]) fun _ ready scope grown =>
    ⟨.emitGet ready (denotes.mono grown) t, by cases p <;> exact scope⟩

theorem of_emitSet {p : Place} {l : Location} (denotes : p.Denotes known l) (t : Token) :
    Emits known s s (modify (p.emitSet t)) True (blaming (.set l) t) :=
  of_modify (by simp [blaming, Asm.distance]) fun _ ready scope grown =>
    ⟨.emitSet ready (denotes.mono grown) t, by cases p <;> exact scope⟩

theorem of_define (t : Token) :
    Emits known s s (do let index ← nameConstant t; modify (·.emitWide .defGlobal index)) True
      (define t.lexeme) := by
  intro d ready scope grown
  refine (exactly_nameConstant t ready).bind (fun h => h.2.2) ?_
  rintro _ i d₁ ⟨drafted, scope₁, stands⟩
  have small : i < d₁.pool.length := (List.getElem?_eq_some_iff.1 stands).1
  have all := drafted.trans (.writeWide (a := .define t.lexeme) drafted.ready d₁.line rfl stands
    (Nat.lt_of_lt_of_le small drafted.ready.room))
  exact ⟨⟨trivial, by simp [define, Fits, Asm.distance], all.holds⟩, all, scope₁.trans scope⟩

theorem replaced (h : Emits known s s x p f) {base d : Draft} {jump : Nat → Asm}
    (forward : Asm.Forward jump) (jumped : Drafted base d (g ++ of [jump openDistance]))
    (scope : d.scope = s) (grown : known <+: base.pool) (fits : (g ++ of [jump openDistance]).Fits) :
    Exactly (p ∧ (g ++ skipped jump (of [.plain .pop] ++ f)).Fits ∧
        base.Holds (g ++ skipped jump (of [.plain .pop] ++ f)).uses)
      (fun _ d' => Drafted base d' (g ++ skipped jump (of [.plain .pop] ++ f)) ∧ d'.scope = s)
      ((do emit .pop; x; patchJump (base.chunk.code.size + g.size + 1) : Build Unit).run d) := by
  refine Exactly.emit rfl jumped fun d₁ popped scope₁ => ?_
  have fits₁ : (g ++ of [jump openDistance] ++ of [.plain .pop]).Fits :=
    (fits_append _ _).2 ⟨fits, by simp [Asm.distance]⟩
  refine Exactly.bind (h.after popped (scope₁.trans scope) (grown.trans popped.grows) trivial
    fits₁) ?_ ?_
  · rintro ⟨law, fits', holds⟩
    rw [fits_append, forward.fits_skipped, fits_append] at fits'
    exact ⟨⟨trivial, law⟩, (fits_append _ _).2 ⟨fits₁, fits'.2.2.2⟩, by simpa [skipped] using holds⟩
  · rintro ⟨law, fits', _⟩ _ d₂ ⟨drafted, scope₂⟩
    simp only [append_assoc] at drafted
    have holds := drafted.holds
    simp only [append_assoc, fits_append] at fits'
    refine (exactly_patchJump forward drafted rfl).imp ?_ fun _ d₃ _ post =>
      ⟨post.1, post.2.trans scope₂⟩
    rw [fits_append, forward.fits_skipped, fits_append]
    constructor
    · exact fun small => ⟨law.2, ⟨fits'.1, small, fits'.2.2⟩, by simpa [skipped] using holds⟩
    · exact fun h => h.2.1.2.1

theorem of_conjunction (h : Emits known s s x p f) :
    Emits known s s (Build.conjunction fun _ => x) p (Fragment.conjunction f) := by
  intro d ready scope grown
  have forward : Asm.Forward .jumpFalse := .inr rfl
  refine Exactly.emitJump forward (.refl ready) fun d₁ jumped scope₁ => ?_
  have skipped := h.replaced forward jumped (scope₁.trans scope) grown
    (by simp [Asm.distance, openDistance])
  simp only [of_nil_append] at skipped
  exact skipped

theorem of_disjunction (h : Emits known s s x p f) :
    Emits known s s (Build.disjunction fun _ => x) p (Fragment.disjunction f) := by
  intro d ready scope grown
  have forward : Asm.Forward .jumpFalse := .inr rfl
  have forward' : Asm.Forward .jump := .inl rfl
  refine Exactly.emitJump forward (.refl ready) fun d₁ jumped scope₁ =>
    Exactly.emitJump forward' jumped fun d₂ jumped' scope₂ => ?_
  rw [append_assoc] at jumped'
  refine (exactly_patchJump forward jumped' rfl).bind (fun _ => by simp [forward'.size]) ?_
  rintro _ _ d₃ ⟨patched, scope₃⟩
  rw [of_nil_append] at patched
  exact h.replaced forward' patched (scope₃.trans (scope₂.trans (scope₁.trans scope))) grown
    (by simp [Asm.distance, openDistance])

end Emits

theorem Opcode.operandWidth_ofBinary (k : TokenKind) : ∀ o ∈ Opcode.ofBinary? k, o.operandWidth = 0 := by
  unfold Opcode.ofBinary?
  split <;> simp [Opcode.operandWidth]

theorem Opcode.operandWidth_ofCompound (k : TokenKind) :
    ∀ o ∈ Opcode.ofCompound? k, o.operandWidth = 0 := by
  unfold Opcode.ofCompound?
  split <;> simp [Opcode.operandWidth]

theorem Opcode.operandWidth_ofUnary (k : TokenKind) : (Opcode.ofUnary k).operandWidth = 0 := by
  unfold Opcode.ofUnary
  split <;> rfl

/-- What an expression must obey while a variable is being initialized. -/
def Expr.Lawful (pending : Option Text) (e : Expr) : Prop :=
  e.Readable ∧ ∀ x ∈ e.names, pending ≠ some x

namespace Expr

variable {pending : Option Text}

theorem lawful_target {e e' : Expr} {t : Token} (literals : e'.literals = e.literals)
    (names : e'.names = t.lexeme :: e.names) :
    pending ≠ some t.lexeme ∧ e.Lawful pending ↔ e'.Lawful pending := by
  simp only [Lawful, Readable, literals, names, List.mem_cons, forall_eq_or_imp]
  exact and_left_comm

theorem lawful_append {a b e : Expr} (literals : e.literals = a.literals ++ b.literals)
    (names : e.names = a.names ++ b.names) :
    a.Lawful pending ∧ b.Lawful pending ↔ e.Lawful pending := by
  simp only [Lawful, Readable, literals, names, List.mem_append, or_imp, forall_and]
  exact and_and_and_comm

theorem emits (known : List Value) {s : Scope} {locals : List Text}
    (shows : s.Shows pending locals) (e : Expr) :
    Emits known s s e.build (e.Lawful pending) (e.fragment locals) := by
  induction e generalizing known with
  | literal t =>
    refine (Emits.of_literal t).advance_left.congr ?_ rfl
    simp [Lawful, Readable, literals, names]
  | name t =>
    refine (Emits.placed shows fun p pool denotes _ =>
      Emits.of_emitGet denotes t).advance_left.congr ?_ rfl
    simp [Lawful, Readable, literals, names]
  | assign t op e ih =>
    refine (Emits.placed shows fun p pool denotes _ => ?_).advance_left.congr
      (lawful_target (e := e) rfl rfl) rfl
    exact ((ih pool).true_bind (Emits.of_emitSet denotes t)).advance_left
  | compound t op e ih =>
    refine (Emits.placed shows fun p pool denotes _ => ?_).advance_left.congr
      (lawful_target (e := e) rfl rfl) (append_assoc _ _ _).symm
    exact ((Emits.of_emitGet denotes t).bind_true ((ih pool).true_bind
      ((Emits.of_emitFor (Opcode.operandWidth_ofCompound _) op).bind_true
        (Emits.of_emitSet denotes t)))).advance_left
  | group _ e _ ih => exact (ih known).advance_right.advance_left
  | unary op e ih =>
    exact ((ih known).true_bind (Emits.of_emitAt (Opcode.operandWidth_ofUnary _) op)).advance_left
  | binary a op b iha ihb =>
    refine ((iha known).bind (((ihb known).true_bind
      (Emits.of_emitFor (Opcode.operandWidth_ofBinary _) op)).advance_left)).congr ?_ rfl
    exact lawful_append rfl rfl
  | conditional c mark a colon b ihc iha ihb =>
    have arms := (iha known).bind
      (((ihb known).true_bind (Emits.of_emitAt (show Opcode.ternary.operandWidth = 0 from rfl) mark)).advance_left)
    refine ((ihc known).bind arms.advance_left).congr ?_ rfl
    rw [lawful_append (e := .binary a mark b) rfl rfl]
    exact lawful_append rfl rfl
  | and a op b iha ihb =>
    exact ((iha known).bind (ihb known).of_conjunction.advance_left).congr (lawful_append rfl rfl) rfl
  | or a op b iha ihb =>
    exact ((iha known).bind (ihb known).of_disjunction.advance_left).congr (lawful_append rfl rfl) rfl

end Expr

end StackScript
