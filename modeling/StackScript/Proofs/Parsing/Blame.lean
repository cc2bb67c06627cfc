import StackScript.Proofs.Drafting.Tree

/-! A parser that gives up has recorded a fault, and no step takes a recorded fault
back. While a draft recovers it records nothing, but then a fault is already there. -/

namespace StackScript

open Build

namespace Draft

/-- A draft that recovers has something to recover from. -/
def Sound (d : Draft) : Prop := d.recovering → d.faults ≠ []

theorem sound_of_faults {d : Draft} (h : d.faults ≠ []) : d.Sound := fun _ => h

theorem report_faults {d : Draft} (h : d.Sound) (t : Token) (fault : SyntaxFault) :
    (d.report t fault).faults ≠ [] := by
  unfold report
  split
  · next recovering => exact h recovering
  · exact List.cons_ne_nil _ _

theorem emitPops_faults (n : Nat) (d : Draft) :
    (emitPops n d).faults = d.faults ∧ (emitPops n d).recovering = d.recovering := by
  induction n generalizing d with
  | zero => exact ⟨rfl, rfl⟩
  | succ n ih => exact ih (d.emit .pop)

end Draft

/-- Every way to end: well, with the faults that were there before, or with a fault. -/
def Blames {α : Type} (x : Build α) : Prop :=
  ∀ ⦃d : Draft⦄, d.Sound →
    match x.run d with
    | .ok _ d' => d'.Sound ∧ (d.faults ≠ [] → d'.faults ≠ [])
    | .error _ d' => d'.faults ≠ []

namespace Blames

variable {α β : Type}

theorem bind {x : Build α} {f : α → Build β} (first : Blames x) (second : ∀ a, Blames (f a)) :
    Blames (x >>= f) := by
  intro d sound
  have h := first sound
  rw [EStateM.run_bind]
  cases run : x.run d with
  | error e d₁ => simpa only [run] using h
  | ok a d₁ =>
    rw [run] at h
    have h' := second a h.1
    dsimp only
    cases run' : (f a).run d₁ with
    | error e d₂ => simpa only [run'] using h'
    | ok b d₂ =>
      rw [run'] at h'
      exact ⟨h'.1, fun faults => h'.2 (h.2 faults)⟩

theorem of_pure (a : α) : Blames (pure a : Build α) := fun _ sound => ⟨sound, id⟩

theorem of_get : Blames (get : Build Draft) := fun _ sound => ⟨sound, id⟩

theorem of_modify {f : Draft → Draft}
    (same : ∀ d, (f d).faults = d.faults ∧ (f d).recovering = d.recovering) :
    Blames (modify f : Build Unit) := by
  intro d sound
  obtain ⟨faults, recovering⟩ := same d
  refine ⟨?_, fun h => by rwa [faults]⟩
  rw [Draft.Sound, faults, recovering]
  exact sound

theorem of_fail (t : Token) (fault : SyntaxFault) : Blames (fail t fault : Build α) :=
  fun _ sound => Draft.report_faults sound t fault

theorem of_ite {p : Prop} [Decidable p] {x y : Build α} (yes : Blames x) (no : Blames y) :
    Blames (if p then x else y) := by
  split
  · exact yes
  · exact no

theorem of_andThen {body : Build Unit} {o : Occasion} {change : Draft → Draft} (h : Blames body)
    (same : ∀ d, (change d).faults = d.faults ∧ (change d).recovering = d.recovering) :
    Blames (andThen body o change) := by
  intro d sound
  have h := h sound
  rw [run_andThen]
  cases run : body.run d with
  | error e d₁ =>
    rw [run] at h
    intro none
    exact h ((same d₁).1 ▸ none)
  | ok a d₁ =>
    rw [run] at h
    exact of_modify same h.1 |>.imp id fun keeps faults => keeps (h.2 faults)

theorem of_current : Blames current := of_get.bind fun _ => of_pure _

theorem of_outside : Blames (outside : Build α) := by
  rw [outside_eq]
  exact of_current.bind fun _ => of_fail _ _

theorem of_previous : Blames previous := of_get.bind fun _ => of_pure _

theorem of_advance : Blames advance := of_modify Draft.advance_faults

theorem of_take (kind : TokenKind) : Blames (take kind) :=
  of_get.bind fun _ => of_ite (of_advance.bind fun _ => of_pure _) (of_pure _)

theorem of_expect (kind : TokenKind) (fault : SyntaxFault) : Blames (expect kind fault) :=
  of_get.bind fun _ => of_ite of_advance (of_get.bind fun _ => of_fail _ _)

theorem of_emit (op : Opcode) : Blames (emit op) := of_modify fun _ => ⟨rfl, rfl⟩

theorem of_emitJump (op : Opcode) : Blames (emitJump op) := by
  refine bind (of_modify ?_) fun _ => of_get.bind fun _ => of_pure _
  exact fun _ => ⟨rfl, rfl⟩

theorem of_patchJump (pos : Nat) : Blames (patchJump pos) :=
  of_get.bind fun _ => of_ite (of_get.bind fun _ => of_fail _ _) (of_modify fun _ => ⟨rfl, rfl⟩)

theorem of_patchAll (exits : List Nat) : Blames (patchAll exits) := by
  induction exits with
  | nil => exact of_pure ()
  | cons pos rest ih => exact (of_patchJump pos).bind fun _ => ih

theorem of_emitLoop (start : Nat) : Blames (emitLoop start) :=
  (of_emit _).bind fun _ => of_get.bind fun _ =>
    of_ite (of_get.bind fun _ => of_fail _ _) (of_modify fun _ => ⟨rfl, rfl⟩)

theorem of_emitConstant (v : Value) : Blames (emitConstant v) :=
  of_get.bind fun _ => of_ite (of_modify fun _ => ⟨rfl, rfl⟩) (of_get.bind fun _ => of_fail _ _)

theorem of_loads {t : Token} {x : Build Unit} (h : Loads t x) : Blames x := by
  cases h with
  | constant _ => exact of_emitConstant _
  | refusal fault => exact of_fail t fault

theorem of_nameConstant (t : Token) : Blames (nameConstant t) := by
  refine of_get.bind fun d => ?_
  split
  · exact of_pure _
  · refine of_get.bind fun _ => of_ite ?_ (of_fail _ _)
    refine of_get.bind fun _ => bind (of_modify ?_) fun _ => of_pure _
    exact fun _ => ⟨rfl, rfl⟩

theorem of_place (t : Token) : Blames (place t) := by
  refine of_get.bind fun d => ?_
  split
  · exact of_ite (of_pure _) (of_fail _ _)
  · exact (of_nameConstant t).bind fun _ => of_pure _

theorem of_emitGet (p : Place) (t : Token) : Blames (modify (p.emitGet t) : Build Unit) := by
  cases p <;> exact of_modify fun _ => ⟨rfl, rfl⟩

theorem of_emitSet (p : Place) (t : Token) : Blames (modify (p.emitSet t) : Build Unit) := by
  cases p <;> exact of_modify fun _ => ⟨rfl, rfl⟩

variable {self : Level → Build Unit}

theorem of_variableUse (h : ∀ l, Blames (self l)) (assignable : Bool) (t : Token) :
    Blames (variableUse self assignable t) := by
  refine (of_place t).bind fun p => of_current.bind fun op => of_ite ?_ ?_
  · exact of_advance.bind fun _ => (h _).bind fun _ => of_emitSet _ _
  · split
    · refine of_advance.bind fun _ => (of_emitGet _ _).bind fun _ => (h _).bind fun _ => ?_
      exact bind (of_modify fun _ => ⟨rfl, rfl⟩) fun _ => of_emitSet _ _
    · exact of_emitGet _ _

theorem of_operand (h : ∀ l, Blames (self l)) (assignable : Bool) :
    Blames (operand self assignable) := by
  refine of_previous.bind fun t => ?_
  split
  · exact (h _).bind fun _ => of_current.bind fun _ => of_ite of_advance (of_fail _ _)
  · exact (h _).bind fun _ => of_modify fun _ => ⟨rfl, rfl⟩
  · exact (h _).bind fun _ => of_modify fun _ => ⟨rfl, rfl⟩
  · exact of_variableUse h _ _
  · exact of_loads (stringLiteral_loads t)
  · exact of_loads (integerLiteral_loads t)
  · exact of_loads (floatLiteral_loads t)
  · exact of_emit _
  · exact of_emit _
  · exact of_emit _
  · exact of_fail _ _

theorem of_operation (h : ∀ l, Blames (self l)) : Blames (operation self) := by
  refine of_previous.bind fun t => ?_
  split
  · exact (h _).bind fun _ => (of_expect _ _).bind fun _ => (h _).bind fun _ =>
      of_modify fun _ => ⟨rfl, rfl⟩
  · exact (of_emitJump _).bind fun _ => (of_emit _).bind fun _ => (h _).bind fun _ =>
      of_patchJump _
  · exact (of_emitJump _).bind fun _ => (of_emitJump _).bind fun _ => (of_patchJump _).bind fun _ =>
      (of_emit _).bind fun _ => (h _).bind fun _ => of_patchJump _
  · split
    · exact (h _).bind fun _ => of_modify fun _ => ⟨rfl, rfl⟩
    · exact of_outside

theorem of_operations (h : ∀ l, Blames (self l)) (level : Level) (fuel : Nat) :
    Blames (operations self level fuel) := by
  induction fuel with
  | zero => exact of_outside
  | succ fuel ih =>
    exact of_current.bind fun _ =>
      of_ite (of_advance.bind fun _ => (of_operation h).bind fun _ => ih) (of_pure ())

theorem of_expression (fuel : Nat) (level : Level) : Blames (expression fuel level) := by
  induction fuel generalizing level with
  | zero => exact of_outside
  | succ fuel ih =>
    exact of_advance.bind fun _ => (of_operand ih _).bind fun _ => (of_operations ih _ _).bind fun _ =>
      of_current.bind fun _ => of_ite (of_current.bind fun _ => of_fail _ _) (of_pure ())

variable {expr stmt : Build Unit}

theorem of_arm (first : Blames expr) (second : Blames stmt) : Blames (arm expr stmt) :=
  first.bind fun _ => (of_emitJump _).bind fun _ => (of_emit _).bind fun _ => second.bind fun _ =>
    (of_emitJump _).bind fun _ => (of_patchJump _).bind fun _ => (of_emit _).bind fun _ => of_pure _

theorem of_arms (first : Blames expr) (second : Blames stmt) (fuel : Nat) (exits : List Nat) :
    Blames (arms expr stmt fuel exits) := by
  induction fuel generalizing exits with
  | zero => exact of_outside
  | succ fuel ih =>
    exact (of_arm first second).bind fun _ => (of_take _).bind fun _ => of_ite (ih _) (of_pure _)

theorem of_whileStatement (first : Blames expr) (second : Blames stmt) :
    Blames (whileStatement expr stmt) :=
  of_get.bind fun _ => first.bind fun _ => (of_emitJump _).bind fun _ => (of_emit _).bind fun _ =>
    second.bind fun _ => (of_emitLoop _).bind fun _ => (of_patchJump _).bind fun _ => of_emit _

theorem of_initializer (h : Blames expr) : Blames (initializer expr) :=
  (of_take _).bind fun _ =>
    of_ite (h.bind fun _ => of_expect _ _) ((of_emit _).bind fun _ => of_expect _ _)

theorem of_letDeclaration (h : Blames expr) : Blames (letDeclaration expr) := by
  refine (of_expect _ _).bind fun _ => of_previous.bind fun name => of_get.bind fun d =>
    of_ite ?_ (of_ite (of_fail _ _) ?_)
  · exact (of_initializer h).bind fun _ => (of_nameConstant _).bind fun _ =>
      of_modify fun _ => ⟨rfl, rfl⟩
  · split
    · exact of_fail _ _
    · exact bind (of_modify fun _ => ⟨rfl, rfl⟩) fun _ =>
        of_andThen (of_initializer h) fun _ => ⟨rfl, rfl⟩

theorem of_declaration (first : Blames expr) (second : Blames stmt) :
    Blames (declaration expr stmt) := by
  intro d sound
  have h : Blames (do if ← take .kwLet then letDeclaration expr else stmt) :=
    (of_take _).bind fun _ => of_ite (of_letDeclaration first) second
  replace h := h sound
  rw [run_declaration]
  revert h
  cases (do if ← take .kwLet then letDeclaration expr else stmt : Build Unit).run d with
  | ok _ d' => exact id
  | error _ d' =>
    intro faults
    exact ⟨Draft.sound_of_faults faults, fun _ => faults⟩

theorem of_blockBody {decl : Build Unit} (h : Blames decl) (fuel : Nat) :
    Blames (blockBody decl fuel) := by
  induction fuel with
  | zero => exact of_outside
  | succ fuel ih =>
    exact of_current.bind fun _ => of_ite (of_expect _ _) (h.bind fun _ => ih)

theorem of_statement (h : Blames expr) (fuel : Nat) : Blames (statement expr fuel) := by
  induction fuel with
  | zero => exact of_outside
  | succ fuel ih =>
    refine of_current.bind fun t => ?_
    split
    · exact of_advance.bind fun _ => h.bind fun _ => (of_expect _ _).bind fun _ => of_emit _
    · exact of_advance.bind fun _ => (of_arms h ih _ _).bind fun _ => (of_take _).bind fun _ =>
        of_ite (ih.bind fun _ => of_patchAll _) (of_patchAll _)
    · exact of_advance.bind fun _ => of_whileStatement h ih
    · refine of_advance.bind fun _ => bind (of_modify fun _ => ⟨rfl, rfl⟩) fun _ => ?_
      exact of_andThen (of_blockBody (of_declaration h ih) _) fun d => Draft.emitPops_faults _ _
    · exact h.bind fun _ => (of_expect _ _).bind fun _ => of_emit _

theorem of_declarations {decl : Build Unit} (h : Blames decl) (fuel : Nat) :
    Blames (declarations decl fuel) := by
  induction fuel with
  | zero => exact of_outside
  | succ fuel ih => exact (of_take _).bind fun _ => of_ite (of_pure ()) (h.bind fun _ => ih)

end Blames

end StackScript
