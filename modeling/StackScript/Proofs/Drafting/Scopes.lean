import StackScript.Proofs.Drafting.Blocks
import StackScript.Proofs.Parsing.Pairing

/-! The scope while a draft is written. It is sound when the locals are those of the open blocks and
no block has two of one name; entering and leaving a block and declaring a local keep it so. All else
that is done to a draft leaves the scope alone. -/

namespace StackScript

open Build

namespace Scope

/-- The scope with more locals of its innermost block, all ready, the innermost first. -/
def grown (s : Scope) (names : List Text) : Scope :=
  ⟨names.map (⟨·, s.depth, true⟩) ++ s.locals, s.depth⟩

def Grows (s s' : Scope) : Prop := s' = s ∨ ∃ x, s' = s.grown [x]

def Extends (s s' : Scope) : Prop := ∃ names, s' = s.grown names

/-- The locals are those of the open blocks, outer blocks behind inner ones. No block has two of one
name, and all are ready but a pending one, which is the innermost. -/
structure Sound (s : Scope) (pending : Option Text) : Prop where
  within : ∀ l ∈ s.locals, 0 < l.depth ∧ l.depth ≤ s.depth
  sorted : s.locals.Pairwise fun l m => m.depth ≤ l.depth
  distinct : s.locals.Pairwise fun l m => l.depth = m.depth → l.name ≠ m.name
  few : s.locals.length ≤ maxLocals
  ready : ∃ ls, s.locals = (pending.map (⟨·, s.depth, false⟩)).toList ++ ls ∧ ∀ l ∈ ls, l.ready

/-- The local that a name stands for is the innermost one of that name: none stands before it, and
those behind it belong to blocks further out. -/
structure Resolves (s : Scope) (x : Text) (slot : Nat) (l : Local) : Prop where
  name : l.name = x
  split : ∃ inner outer, s.locals = inner ++ l :: outer ∧ slot = outer.length ∧
    (∀ m ∈ inner, m.name ≠ x) ∧ ∀ m ∈ outer, m.name = x → m.depth < l.depth

variable {s s' s'' : Scope} {x : Text} {pending : Option Text}

theorem Extends.refl (s : Scope) : s.Extends s := ⟨[], rfl⟩

theorem Extends.trans (h : s.Extends s') (h' : s'.Extends s'') : s.Extends s'' := by
  obtain ⟨names, rfl⟩ := h
  obtain ⟨names', rfl⟩ := h'
  exact ⟨names' ++ names, by simp [grown]⟩

theorem Grows.refl (s : Scope) : s.Grows s := .inl rfl

theorem Grows.extends (h : s.Grows s') : s.Extends s' := by
  rcases h with rfl | ⟨x, rfl⟩
  · exact .refl s'
  · exact ⟨[x], rfl⟩

theorem mem_takeWhile {n : Nat} {ls : List Local} (sorted : ls.Pairwise fun l m => m.depth ≤ l.depth)
    {l : Local} (mem : l ∈ ls) (deep : n ≤ l.depth) : l ∈ ls.takeWhile (n ≤ ·.depth) := by
  induction ls with
  | nil => cases mem
  | cons m ls ih =>
    obtain ⟨first, rest⟩ := List.pairwise_cons.1 sorted
    rcases List.mem_cons.1 mem with rfl | mem
    · rw [List.takeWhile_cons_of_pos (by simpa using deep)]
      exact List.mem_cons_self
    · have outer := Nat.le_trans deep (first l mem)
      rw [List.takeWhile_cons_of_pos (by simpa using outer)]
      exact List.mem_cons_of_mem m (ih rest mem)

theorem find?_eq_some {ls : List Local} {slot : Nat} {l : Local} :
    find? x ls = some (slot, l) ↔ ∃ inner outer, ls = inner ++ l :: outer ∧ slot = outer.length ∧
      (∀ m ∈ inner, m.name ≠ x) ∧ l.name = x := by
  constructor
  · intro found
    induction ls with
    | nil => cases found
    | cons m ls ih =>
      unfold find? at found
      split at found
      · next same =>
        cases found
        exact ⟨[], ls, rfl, rfl, by simp, same⟩
      · next other =>
        obtain ⟨inner, outer, rfl, count, others, name⟩ := ih found
        exact ⟨m :: inner, outer, rfl, count, List.forall_mem_cons.2 ⟨other, others⟩, name⟩
  · rintro ⟨inner, outer, rfl, rfl, others, name⟩
    induction inner with
    | nil => simp [find?, name]
    | cons m inner ih =>
      obtain ⟨other, others⟩ := List.forall_mem_cons.1 others
      rw [List.cons_append, find?, if_neg other]
      exact ih others

namespace Sound

theorem settled (h : s.Sound none) : s.Settled (s.locals.map (·.name)) := by
  obtain ⟨ls, split, ready⟩ := h.ready
  have same : s.locals = ls := split
  refine ⟨⟨⟨ls, split, ready, by rw [same]⟩, ?_⟩, h.within⟩
  rw [List.length_map]
  exact h.few

theorem empty (h : s.Sound pending) (outermost : s.depth = 0) : s.locals = [] := by
  refine List.eq_nil_iff_forall_not_mem.2 fun l mem => ?_
  have depths := h.within l mem
  omega

theorem enter (h : s.Sound none) : s.enter.Sound none where
  within l mem := ⟨(h.within l mem).1, Nat.le_succ_of_le (h.within l mem).2⟩
  sorted := h.sorted
  distinct := h.distinct
  few := h.few
  ready := h.ready

theorem fresh (h : s.Sound pending) (absent : s.declaredHere x = false) :
    ∀ l ∈ s.locals, l.depth = s.depth → l.name ≠ x := by
  intro l mem depth same
  have here := mem_takeWhile h.sorted mem (Nat.le_of_eq depth.symm)
  have declared : s.declaredHere x = true := List.any_eq_true.2 ⟨l, here, decide_eq_true same⟩
  rw [absent] at declared
  cases declared

/-- A local that is declared is pending at first, and then one more of its block. -/
theorem declare (h : s.Sound none) (inner : s.depth ≠ 0) (absent : s.declaredHere x = false)
    (declared : s.declare? x = some s') :
    s'.markReady = s.grown [x] ∧ s'.Sound (some x) ∧ (s.grown [x]).Sound none := by
  unfold declare? at declared
  split at declared
  · next room =>
    cases declared
    obtain ⟨ls, split, ready⟩ := h.ready
    have same : s.locals = ls := split
    have within (r : Bool) : ∀ l ∈ Local.mk x s.depth r :: s.locals, 0 < l.depth ∧ l.depth ≤ s.depth :=
      List.forall_mem_cons.2 ⟨⟨Nat.pos_of_ne_zero inner, Nat.le_refl _⟩, h.within⟩
    have sorted (r : Bool) : (Local.mk x s.depth r :: s.locals).Pairwise fun l m => m.depth ≤ l.depth :=
      List.pairwise_cons.2 ⟨fun m mem => (h.within m mem).2, h.sorted⟩
    have distinct (r : Bool) : (Local.mk x s.depth r :: s.locals).Pairwise fun l m =>
        l.depth = m.depth → l.name ≠ m.name := by
      refine List.pairwise_cons.2 ⟨fun m mem depth name => ?_, h.distinct⟩
      exact h.fresh absent m mem depth.symm name.symm
    refine ⟨rfl, ⟨within false, sorted false, distinct false, room, ls, ?_, ready⟩,
      ⟨within true, sorted true, distinct true, room, _, rfl, ?_⟩⟩
    · rw [same]
      rfl
    · exact List.forall_mem_cons.2 ⟨rfl, same ▸ ready⟩
  · cases declared

theorem resolve?_eq_some (h : s.Sound pending) {slot : Nat} {l : Local} :
    s.resolve? x = some (slot, l) ↔ s.Resolves x slot l := by
  rw [resolve?, find?_eq_some]
  constructor
  · rintro ⟨inner, outer, split, count, other, name⟩
    refine ⟨name, inner, outer, split, count, other, fun m mem same => ?_⟩
    have sorted := (List.pairwise_cons.1 (List.pairwise_append.1 (split ▸ h.sorted)).2.1).1 m mem
    have distinct := (List.pairwise_cons.1 (List.pairwise_append.1 (split ▸ h.distinct)).2.1).1 m mem
    exact Nat.lt_of_le_of_ne sorted fun depth => distinct depth.symm (name.trans same.symm)
  · rintro ⟨name, inner, outer, split, count, other, _⟩
    exact ⟨inner, outer, split, count, other, name⟩

end Sound

theorem resolve?_eq_none (s : Scope) (x : Text) :
    s.resolve? x = none ↔ ∀ l ∈ s.locals, l.name ≠ x := by
  unfold resolve?
  induction s.locals with
  | nil => simp [find?]
  | cons m ls ih =>
    unfold find?
    split
    · next same => simp [same]
    · next other => simp [ih, other]

end Scope

def final {α : Type} : EStateM.Result GivenUp Draft α → Draft
  | .ok _ d | .error _ d => d

def KeepsScope {α : Type} (x : Build α) : Prop := ∀ d, (final (x.run d)).scope = d.scope

namespace KeepsScope

variable {α β : Type}

theorem bind {x : Build α} {f : α → Build β} (first : KeepsScope x) (second : ∀ a, KeepsScope (f a)) :
    KeepsScope (x >>= f) := by
  intro d
  have first := first d
  rw [EStateM.run_bind]
  cases run : x.run d with
  | error e d' => rwa [run] at first
  | ok a d' =>
    rw [run] at first
    exact (second a d').trans first

theorem of_modify {f : Draft → Draft} (h : ∀ d, (f d).scope = d.scope) : KeepsScope (modify f) := h

theorem get : KeepsScope get := fun _ => rfl

theorem current : KeepsScope current := fun _ => rfl

theorem previous : KeepsScope previous := fun _ => rfl

theorem advance : KeepsScope advance := Draft.advance_scope

theorem fail (t : Token) (fault : SyntaxFault) : KeepsScope (fail t fault : Build α) :=
  fun d => d.report_scope t fault

theorem take (kind : TokenKind) : KeepsScope (take kind) := by
  intro d
  rw [run_take]
  split
  · exact d.advance_scope
  · rfl

theorem expect (kind : TokenKind) (fault : SyntaxFault) : KeepsScope (expect kind fault) :=
  get.bind fun d => by
    split
    · exact advance
    · exact get.bind fun e => fail _ _

theorem emit (op : Opcode) : KeepsScope (emit op) := fun _ => rfl

theorem emitJump (op : Opcode) : KeepsScope (emitJump op) := fun _ => rfl

theorem patchJump (pos : Nat) : KeepsScope (patchJump pos) := by
  intro d
  rw [run_patchJump]
  split
  · exact d.report_scope _ _
  · rfl

theorem emitLoop (start : Nat) : KeepsScope (emitLoop start) := by
  intro d
  rw [run_emitLoop]
  split
  · exact (d.emit .loop).report_scope _ _
  · rfl

theorem emitConstant (v : Value) : KeepsScope (emitConstant v) :=
  get.bind fun d => by
    split
    · exact of_modify fun _ => rfl
    · exact get.bind fun e => fail _ _

theorem nameConstant (t : Token) : KeepsScope (nameConstant t) := by
  intro d
  rw [run_nameConstant]
  split
  · rfl
  · split
    · rfl
    · exact d.report_scope _ _

theorem place (t : Token) : KeepsScope (place t) :=
  get.bind fun d => by
    split
    · split
      · exact fun _ => rfl
      · exact fail _ _
    · exact (nameConstant t).bind fun _ _ => rfl

theorem emitGet (p : Place) (t : Token) : KeepsScope (modify (p.emitGet t)) :=
  of_modify fun _ => by cases p <;> rfl

theorem emitSet (p : Place) (t : Token) : KeepsScope (modify (p.emitSet t)) :=
  of_modify fun _ => by cases p <;> rfl

theorem emitAt (op : Opcode) (t : Token) : KeepsScope (modify (·.emitAt op t)) :=
  of_modify fun _ => rfl

theorem of_loads {t : Token} {x : Build Unit} (h : Loads t x) : KeepsScope x := by
  cases h with
  | constant _ => exact emitConstant _
  | refusal fault => exact fail t fault

end KeepsScope

end StackScript
