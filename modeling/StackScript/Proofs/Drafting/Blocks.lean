import StackScript.Proofs.Drafting.Control

/-! Blocks. The scope inside a block is the scope around it with the variables of the block
in front, so that leaving the block leads back to where it was entered. -/

namespace StackScript

open Build Fragment

/-- A scope in which nothing is being initialized. Its locals belong to open blocks. -/
structure Scope.Settled (s : Scope) (locals : List Text) : Prop where
  shows : s.Shows none locals
  depths : ∀ l ∈ s.locals, 0 < l.depth ∧ l.depth ≤ s.depth

namespace Scope

/-- The scope inside a block with these variables, the innermost first. -/
def within (o : Scope) (here : List Text) : Scope :=
  ⟨here.map (⟨·, o.depth + 1, true⟩) ++ o.locals, o.depth + 1⟩

/-- The scope while one more variable of the block is being initialized. -/
def pending (o : Scope) (here : List Text) (x : Text) : Scope :=
  ⟨⟨x, o.depth + 1, false⟩ :: (o.within here).locals, o.depth + 1⟩

variable {o : Scope} {locals here : List Text}

theorem Settled.length (h : o.Settled locals) : o.locals.length = locals.length := by
  obtain ⟨ls, split, _, rfl⟩ := h.shows.names
  simp [split]

theorem Settled.within (h : o.Settled locals) (few : (here ++ locals).length ≤ maxLocals) :
    (o.within here).Settled (here ++ locals) := by
  obtain ⟨ls, split, ready, rfl⟩ := h.shows.names
  refine ⟨⟨⟨_, rfl, ?_, ?_⟩, few⟩, ?_⟩
  · intro l mem
    rcases List.mem_append.1 mem with mem | mem
    · obtain ⟨x, _, rfl⟩ := List.mem_map.1 mem
      rfl
    · exact ready l (by simpa [split] using mem)
  · simp [split, Function.comp_def]
  · intro l mem
    rcases List.mem_append.1 mem with mem | mem
    · obtain ⟨x, _, rfl⟩ := List.mem_map.1 mem
      exact ⟨Nat.succ_pos _, Nat.le_refl _⟩
    · have depths := h.depths l mem
      exact ⟨depths.1, Nat.le_succ_of_le depths.2⟩

theorem Settled.pending (h : o.Settled locals) (few : (here ++ locals).length ≤ maxLocals)
    (x : Text) : (o.pending here x).Shows (some x) (here ++ locals) := by
  obtain ⟨ls, split, ready, names⟩ := (h.within few).shows.names
  exact ⟨⟨ls, congrArg _ split, ready, names⟩, few⟩

theorem Settled.takeWhile (h : o.Settled locals) :
    (o.within here).locals.takeWhile (o.depth < ·.depth) = here.map (⟨·, o.depth + 1, true⟩) := by
  have outside : o.locals.takeWhile (o.depth < ·.depth) = [] := by
    cases split : o.locals with
    | nil => rfl
    | cons l ls =>
      have depth := (h.depths l (by simp [split])).2
      rw [List.takeWhile_cons_of_neg (by simpa using depth)]
  rw [Scope.within, List.takeWhile_append_of_pos, outside, List.append_nil]
  intro l mem
  obtain ⟨x, _, rfl⟩ := List.mem_map.1 mem
  simp

theorem Settled.owned (h : o.Settled locals) : (o.within here).owned = here.length := by
  have inside := @h.takeWhile o locals here
  change ((o.within here).locals.takeWhile (o.depth < ·.depth)).length = _
  rw [inside, List.length_map]

theorem Settled.leave (h : o.Settled locals) : (o.within here).leave = o := by
  have split := List.takeWhile_append_dropWhile (p := (o.depth < ·.depth)) (l := (o.within here).locals)
  rw [h.takeWhile] at split
  have rest : (o.within here).locals.dropWhile (o.depth < ·.depth) = o.locals :=
    List.append_cancel_left split
  change Scope.mk ((o.within here).locals.dropWhile (o.depth < ·.depth)) o.depth = o
  rw [rest]

theorem Settled.declaredHere (h : o.Settled locals) (x : Text) :
    (o.within here).declaredHere x = decide (x ∈ here) := by
  have inside := @h.takeWhile o locals here
  change ((o.within here).locals.takeWhile (o.depth < ·.depth)).any (·.name = x) = _
  rw [inside, List.any_map]
  simp [Function.comp_def, List.any_eq]

theorem Settled.declare (h : o.Settled locals) (x : Text) :
    (o.within here).declare? x =
      if (here ++ locals).length < maxLocals then some (o.pending here x) else none := by
  have length : (o.within here).locals.length = (here ++ locals).length := by
    simp [Scope.within, h.length]
  rw [declare?, length]
  rfl

end Scope

theorem Drafted.emitPops (n : Nat) {d : Draft} (ready : d.Ready) :
    Drafted d (Draft.emitPops n d) (pops n) ∧ (Draft.emitPops n d).scope = d.scope := by
  induction n generalizing d with
  | zero => exact ⟨.refl ready, rfl⟩
  | succ n ih =>
    have popped := Drafted.emit ready (show Opcode.pop.operandWidth = 0 from rfl)
    obtain ⟨rest, scope⟩ := ih popped.ready
    have all := popped.trans rest
    rw [pops, ← of_append, List.singleton_append, ← List.replicate_succ] at all
    exact ⟨all, scope⟩

variable {known : List Value} {o : Scope} {locals here : List Text}

theorem fits_pops (n : Nat) : (pops n).Fits := by
  intro a mem
  rw [List.eq_of_mem_replicate mem]
  decide

theorem Emits.of_enterBlock : Emits known o (o.within []) (modify Draft.enterBlock) True (of []) :=
  of_modify fits_of_nil fun _ ready scope _ =>
    ⟨.of_same ready rfl rfl rfl, congrArg Scope.enter scope⟩

theorem Emits.of_leaveBlock (settled : o.Settled locals) :
    Emits known (o.within here) o (modify Draft.leaveBlock) True (pops here.length) := by
  refine of_modify (fits_pops _) fun d ready scope _ => ?_
  have left : Draft.leaveBlock d = Draft.emitPops here.length { d with scope := o } := by
    rw [Draft.leaveBlock, scope, settled.leave, settled.owned]
  have same : Drafted d { d with scope := o } (of []) := .of_same ready rfl rfl rfl
  obtain ⟨popped, scope'⟩ := Drafted.emitPops here.length same.ready
  rw [left]
  have all := same.trans popped
  rw [of_nil_append] at all
  exact ⟨all, scope'⟩

theorem Emits.of_declare {name : Token} {value : Build Unit} {p : Prop} {f : Fragment}
    (settled : o.Settled locals)
    (h : Emits known (o.pending here name.lexeme) (o.pending here name.lexeme) value p f) :
    Emits known (o.within here) (o.within (name.lexeme :: here)) (declare name value)
      (name.lexeme ∉ here ∧ (here ++ locals).length < Scope.maxLocals ∧ p) f := by
  intro d ready scope grown
  have inside : d.scope.depth ≠ 0 := by
    rw [scope]
    exact Nat.succ_ne_zero _
  refine Exactly.step (EStateM.run_get d) ?_
  rw [if_neg inside, scope, settled.declaredHere, settled.declare]
  by_cases declared : name.lexeme ∈ here
  · rw [if_pos (by simpa using declared)]
    exact fun condition => condition.1.1 declared
  · rw [if_neg (by simpa using declared)]
    by_cases room : (here ++ locals).length < Scope.maxLocals
    · rw [if_pos room]
      refine Exactly.step rfl ?_
      have same : Drafted d { d with scope := o.pending here name.lexeme } (of []) :=
        .of_same ready rfl rfl rfl
      have valued := h same.ready rfl (grown.trans same.grows)
      rw [run_andThen]
      revert valued
      cases value.run { d with scope := o.pending here name.lexeme } with
      | ok a d' =>
        rintro ⟨⟨law, fits, holds⟩, drafted, scope'⟩
        have marked : Drafted d' { d' with scope := d'.scope.markReady } (of []) :=
          .of_same drafted.ready rfl rfl rfl
        have all := (same.trans drafted).trans marked
        rw [of_nil_append, append_of_nil] at all
        exact ⟨⟨⟨declared, room, law⟩, fits, holds⟩, all, congrArg Scope.markReady scope'⟩
      | error e d' => exact fun refused condition => refused ⟨condition.1.2.2, condition.2⟩
    · rw [if_neg room]
      exact fun condition => room condition.1.2.1

theorem Emits.of_declare_global {name : Token} {value : Build Unit} {p : Prop} {f : Fragment}
    {s : Scope} (top : s.depth = 0) (h : Emits known s s value p f) :
    Emits known s s (declare name value) p (f ++ define name.lexeme) := by
  intro d ready scope grown
  refine Exactly.step (EStateM.run_get d) ?_
  rw [if_pos (by rw [scope, top])]
  exact h.true_bind (Emits.of_define name) ready scope grown

theorem Emits.of_marked {s s' : Scope} {x : Build Unit} {p : Prop} {f : Fragment}
    (h : Emits known s s' x p f) (span : Span) : Emits known s s' (marked span x) p (f.marked span) := by
  intro d ready scope grown
  have body := h ready scope grown
  rw [run_marked]
  revert body
  cases x.run d with
  | ok a d' =>
    rintro ⟨⟨law, fits, holds⟩, drafted, scope'⟩
    refine ⟨⟨law, (fits_marked f span).2 fits, ?_⟩, drafted.recordSpan span, scope'⟩
    rwa [uses_marked]
  | error e d' =>
    intro refused condition
    rw [fits_marked, uses_marked] at condition
    exact refused condition

end StackScript
