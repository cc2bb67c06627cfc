import StackScript.Proofs.Drafting.History
import StackScript.Proofs.Drafting.Scopes
import StackScript.Proofs.FaultOrder

/-! Scopes are in balance. Whatever the tokens are and wherever a declaration is given up, a call on
a declaration leaves the scope as it was, with at most one local more; and at every moment of the
compilation the scope is sound. Expressions and statements leave the scope alone, which carries the
induction: a block that is left finds the scope that it was entered from. -/

namespace StackScript

open Build

def Moment.Sound (m : Moment) : Prop := m.draft.scope.Sound m.pending

/-- A call on a declaration adds at most one local, of its own depth and ready to be read, in front of
the locals that there were. -/
structure DeclarationCall.Balanced (c : DeclarationCall) : Prop where
  depth : c.after.scope.depth = c.before.scope.depth
  locals : c.after.scope.locals = c.before.scope.locals ∨
    ∃ x, c.after.scope.locals = ⟨x, c.before.scope.depth, true⟩ :: c.before.scope.locals

theorem DeclarationCall.Balanced.of_grows {before after : Draft}
    (grows : before.scope.Grows after.scope) : (DeclarationCall.mk before after).Balanced := by
  rcases grows with same | ⟨x, grown⟩
  · exact ⟨congrArg Scope.depth same, .inl (congrArg Scope.locals same)⟩
  · exact ⟨(congrArg Scope.depth grown).trans rfl, .inr ⟨x, (congrArg Scope.locals grown).trans rfl⟩⟩

namespace History

structure Sound (h : History) : Prop where
  moments : ∀ m ∈ h.moments, m.Sound
  calls : ∀ c ∈ h.calls, c.Balanced

/-- What a sound history leads to, where the scope changes in some way. -/
structure Leads (change : Scope → Scope → Prop) (h h' : History) : Prop where
  sound : h'.Sound
  pending : h'.now.pending = h.now.pending
  scope : change h.now.draft.scope h'.now.draft.scope

variable {h h' h'' : History} {change change' change'' : Scope → Scope → Prop}

theorem Sound.now (h : History) (sound : h.Sound) : h.now.Sound := sound.moments _ List.mem_cons_self

theorem Sound.see (sound : h.Sound) {m : Moment} (seen : m.Sound) : (h.see m).Sound :=
  ⟨List.forall_mem_cons.2 ⟨seen, sound.moments⟩, sound.calls⟩

theorem Sound.leads (sound : h.Sound) {d : Draft} (scope : d.scope = h.now.draft.scope) :
    h.Leads Eq (h.see { h.now with draft := d }) := by
  refine ⟨sound.see ?_, rfl, scope.symm⟩
  have now := sound.now
  unfold Moment.Sound at now ⊢
  rwa [scope]

theorem Sound.close (sound : h.Sound) {before after : Draft} (scope : after.scope = h.now.draft.scope)
    (grows : before.scope.Grows after.scope) : (h.close before after).Sound :=
  ⟨(sound.leads scope).sound.moments, List.forall_mem_cons.2 ⟨.of_grows grows, sound.calls⟩⟩

theorem Leads.imp (leads : h.Leads change h') (weaker : ∀ s s', change s s' → change' s s') :
    h.Leads change' h' :=
  ⟨leads.sound, leads.pending, weaker _ _ leads.scope⟩

theorem Leads.trans (leads : h.Leads change h') (leads' : h'.Leads change' h'')
    (both : ∀ s s' s'', change s s' → change' s' s'' → change'' s s'') : h.Leads change'' h'' :=
  ⟨leads'.sound, leads'.pending.trans leads.pending, both _ _ _ leads.scope leads'.scope⟩

def Yields (change : Scope → Scope → Prop) (h : History) {α : Type} :
    EStateM.Result GivenUp History α → Prop
  | .ok _ h' => h.Leads change h'
  | .error _ h' => h.Leads change h'

theorem Yields.imp {α : Type} {r : EStateM.Result GivenUp History α} {h₀ : History}
    (ends : h.Yields change r) (each : ∀ h', h.Leads change h' → h₀.Leads change' h') :
    h₀.Yields change' r := by
  cases r <;> exact each _ ends

/-- What is done to a draft however a part ends can lead back to before the part. -/
theorem Yields.andThen {h₀ : History} {y : Recorded Unit} {o : Occasion} {after : Draft → Draft}
    (ends : h.Yields change (y.run h))
    (closes : ∀ h', h.Leads change h' → h₀.Leads change' (become o after h')) :
    h₀.Yields change' ((Build.andThen y o after).run h) := by
  rw [run_andThen]
  revert ends
  cases y.run h <;> exact closes _

end History

/-- What a part of the parsers does to the scope, from every sound history on. -/
def Balances {α : Type} (pending : Option Text) (change : Scope → Scope → Prop) (y : Recorded α) :
    Prop :=
  ∀ ⦃h : History⦄, h.Sound → h.now.pending = pending → h.Yields change (y.run h)

namespace Balances

variable {α β : Type} {pending : Option Text} {change change' change'' : Scope → Scope → Prop}
  {x : Build α} {y : Recorded α} {g : α → Recorded β}

theorem imp (h : Balances pending change y) (weaker : ∀ s s', change s s' → change' s s') :
    Balances pending change' y :=
  fun _ sound quiet => (h sound quiet).imp fun _ leads => leads.imp weaker

theorem bind_of (first : Balances pending change y) (second : ∀ a, Balances pending change' (g a))
    (early : ∀ s s', change s s' → change'' s s')
    (both : ∀ s s' s'', change s s' → change' s' s'' → change'' s s'') :
    Balances pending change'' (y >>= g) := by
  intro h sound quiet
  have begun := first sound quiet
  rw [EStateM.run_bind]
  revert begun
  cases y.run h with
  | error e h' => exact fun leads => History.Leads.imp leads early
  | ok a h' =>
    intro leads
    exact (second a leads.sound (leads.pending.trans quiet)).imp fun _ more => leads.trans more both

theorem bind (first : Balances pending Eq y) (second : ∀ a, Balances pending Eq (g a)) :
    Balances pending Eq (y >>= g) :=
  bind_of first second (fun _ _ => id) fun _ _ _ => Eq.trans

theorem bind_to (refl : ∀ s, change s s) (first : Balances pending Eq y)
    (second : ∀ a, Balances pending change (g a)) : Balances pending change (y >>= g) := by
  refine bind_of first second ?_ ?_
  · rintro s _ rfl
    exact refl s
  · rintro s _ s'' rfl changes
    exact changes

theorem still (refl : ∀ s, change s s) (h : Balances pending Eq y) : Balances pending change y := by
  refine h.imp ?_
  rintro s _ rfl
  exact refl s

theorem look {g : Draft → Recorded α}
    (each : ∀ ⦃h : History⦄, h.Sound → h.now.pending = pending →
      h.Yields change ((g h.now.draft).run h)) :
    Balances pending change (Carrier.act get >>= g) := by
  intro h sound quiet
  have later := sound.see sound.now
  exact (each later quiet).imp fun _ leads => ⟨leads.sound, leads.pending, leads.scope⟩

theorem of_pure (a : α) : Balances pending Eq (pure a) :=
  fun _ sound _ => ⟨sound, rfl, rfl⟩

theorem act (keeps : KeepsScope x) : Balances pending Eq (Carrier.act x) := by
  intro h sound _
  have keeps := keeps h.now.draft
  rw [Recorded.run_act]
  revert keeps
  cases x.run h.now.draft <;> exact sound.leads

theorem outside : Balances pending Eq (Build.outside : Recorded α) :=
  fun h sound quiet => act (.fail h.now.draft.current .tooDeep) sound quiet

section

variable {self : Level → Recorded Unit} (nested : ∀ level, Balances pending Eq (self level))

include nested

theorem variableUse (assignable : Bool) (t : Token) :
    Balances pending Eq (Build.variableUse self assignable t) := by
  refine (act (.place t)).bind fun p => (act .current).bind fun op => ?_
  split
  · exact (act .advance).bind fun _ => (nested _).bind fun _ => act (.emitSet p t)
  · cases if assignable then Opcode.ofCompound? op.kind else none with
    | some arithmetic =>
      exact (act .advance).bind fun _ => (act (.emitGet p t)).bind fun _ => (nested _).bind fun _ =>
        (act (.emitAt arithmetic op)).bind fun _ => act (.emitSet p t)
    | none => exact act (.emitGet p t)

theorem grouping (opening : Token) : Balances pending Eq (Build.grouping self opening) := by
  refine (nested _).bind fun _ => (act .current).bind fun t => ?_
  split
  · exact act .advance
  · exact act (.fail opening _)

theorem operand (assignable : Bool) : Balances pending Eq (Build.operand self assignable) := by
  refine (act .previous).bind fun t => ?_
  split
  · exact grouping nested t
  · exact (nested _).bind fun _ => act (.emitAt _ t)
  · exact (nested _).bind fun _ => act (.emitAt _ t)
  · exact variableUse nested assignable t
  · exact act (.of_loads (stringLiteral_loads t))
  · exact act (.of_loads (integerLiteral_loads t))
  · exact act (.of_loads (floatLiteral_loads t))
  · exact act (.emit _)
  · exact act (.emit _)
  · exact act (.emit _)
  · exact act (.fail t _)

theorem operation : Balances pending Eq (Build.operation self) := by
  refine (act .previous).bind fun t => ?_
  split
  · exact (nested _).bind fun _ => (act (.expect _ _)).bind fun _ => (nested _).bind fun _ =>
      act (.emitAt _ t)
  · exact (act (.emitJump _)).bind fun i => (act (.emit _)).bind fun _ => (nested _).bind fun _ =>
      act (.patchJump i)
  · exact (act (.emitJump _)).bind fun i => (act (.emitJump _)).bind fun j =>
      (act (.patchJump i)).bind fun _ => (act (.emit _)).bind fun _ => (nested _).bind fun _ =>
      act (.patchJump j)
  · cases Opcode.ofBinary? t.kind with
    | some op => exact (nested _).bind fun _ => act (.emitAt op t)
    | none => exact outside

theorem operations (level : Level) (fuel : Nat) :
    Balances pending Eq (Build.operations self level fuel) := by
  induction fuel with
  | zero => exact outside
  | succ fuel ih =>
    refine (act .current).bind fun t => ?_
    split
    · exact (act .advance).bind fun _ => (operation nested).bind fun _ => ih
    · exact of_pure ()

end

theorem ending (level : Level) : Balances pending Eq (Build.ending level) := by
  refine (act .current).bind fun t => ?_
  split
  · exact (act .current).bind fun t => act (.fail t _)
  · exact of_pure ()

theorem expression (fuel : Nat) (level : Level) :
    Balances pending Eq (Build.expression fuel level) := by
  induction fuel generalizing level with
  | zero => exact outside
  | succ fuel ih =>
    exact (act .advance).bind fun _ => (operand ih _).bind fun _ =>
      (operations ih level _).bind fun _ => ending level

theorem patchAll (exits : List Nat) : Balances pending Eq (Build.patchAll exits) := by
  induction exits with
  | nil => exact of_pure ()
  | cons pos rest ih => exact (act (.patchJump pos)).bind fun _ => ih

section

variable {decl : Recorded Unit} (each : Balances none Scope.Grows decl)

include each

theorem blockBody (fuel : Nat) : Balances none Scope.Extends (Build.blockBody decl fuel) := by
  induction fuel with
  | zero => exact outside.still .refl
  | succ fuel ih =>
    refine (act .current).bind_to .refl fun t => ?_
    dsimp only
    split
    · exact (act (.expect _ _)).still .refl
    · exact bind_of each (fun _ => ih) (fun _ _ => Scope.Grows.extends) fun _ _ _ grows =>
        grows.extends.trans

theorem block (fuel : Nat) :
    Balances none Eq
      (do
        Carrier.act (modify Draft.enterBlock)
        andThen (Build.blockBody decl fuel) .action Draft.leaveBlock) := by
  intro h sound quiet
  have now := sound.now
  unfold Moment.Sound at now
  rw [quiet] at now
  have inside := sound.see (m := { h.now with draft := h.now.draft.enterBlock }) (by
    unfold Moment.Sound
    rw [quiet]
    exact now.enter)
  rw [run_modify_bind]
  refine (blockBody each fuel inside quiet).andThen fun h' leads => ?_
  -- the block has added locals of its own depth, which are those that leaving it drops
  obtain ⟨names, grown⟩ := leads.scope
  have back : h'.now.draft.leaveBlock.scope = h.now.draft.scope := by
    rw [Draft.leaveBlock_scope, grown]
    exact now.settled.leave
  refine ⟨leads.sound.see ?_, leads.pending, back.symm⟩
  change h'.now.draft.leaveBlock.scope.Sound h'.now.pending
  rw [back, leads.pending]
  exact sound.now

theorem declarations (fuel : Nat) :
    Balances none Scope.Extends (Build.declarations decl fuel) := by
  induction fuel with
  | zero => exact outside.still .refl
  | succ fuel ih =>
    refine (act (.take _)).bind_to .refl fun more => ?_
    cases more
    · exact bind_of each (fun _ => ih) (fun _ _ => Scope.Grows.extends) fun _ _ _ grows =>
        grows.extends.trans
    · exact (of_pure ()).still .refl

end

section

variable {expr stmt : Recorded Unit} (value : ∀ pending, Balances pending Eq expr)

include value

theorem printStatement : Balances pending Eq (Build.printStatement expr) :=
  (value pending).bind fun _ => (act (.expect _ _)).bind fun _ => act (.emit _)

theorem expressionStatement : Balances pending Eq (Build.expressionStatement expr) :=
  (value pending).bind fun _ => (act (.expect _ _)).bind fun _ => act (.emit _)

theorem initializer : Balances pending Eq (Build.initializer expr) := by
  refine (act (.take _)).bind fun more => ?_
  have close : Balances pending Eq _ :=
    act (.expect .semicolon (.expectedSemicolon "variable declaration"))
  cases more
  · exact (act (.emit _)).bind fun _ => close
  · exact (value pending).bind fun _ => close

theorem declareLocal {x : Text} {s : Scope} {h : History} (sound : h.Sound)
    (quiet : h.now.pending = none) (inner : h.now.draft.scope.depth ≠ 0)
    (absent : h.now.draft.scope.declaredHere x = false)
    (declared : h.now.draft.scope.declare? x = some s) :
    h.Yields Scope.Grows
      ((andThen (Build.initializer expr) .ready fun d =>
        { d with scope := d.scope.markReady } : Recorded Unit).run
          (h.see ⟨{ h.now.draft with scope := s }, some x⟩)) := by
  have now := sound.now
  unfold Moment.Sound at now
  rw [quiet] at now
  obtain ⟨ready, pending, grown⟩ := now.declare inner absent declared
  have reads := initializer value (sound.see (m := ⟨{ h.now.draft with scope := s }, some x⟩) pending) rfl
  refine reads.andThen fun h' leads => ⟨leads.sound.see ?_, quiet.symm, .inr ⟨x, ?_⟩⟩
  · change Scope.Sound h'.now.draft.scope.markReady none
    rw [← leads.scope]
    exact ready ▸ grown
  · change h'.now.draft.scope.markReady = _
    rw [← leads.scope]
    exact ready

theorem letDeclaration : Balances none Scope.Grows (Build.letDeclaration expr) := by
  refine (act (.expect _ _)).bind_to .refl fun _ => (act .previous).bind_to .refl fun name => look ?_
  intro h sound quiet
  dsimp only
  split
  · refine still .refl ?_ sound quiet
    exact (initializer value).bind fun _ => (act (.nameConstant name)).bind fun _ =>
      act (.of_modify fun _ => rfl)
  · next inner =>
    split
    · exact still .refl (act (.fail name _)) sound quiet
    · next absent =>
      cases declared : h.now.draft.scope.declare? name.lexeme with
      | none => exact still .refl (act (.fail name _)) sound quiet
      | some s => exact declareLocal value sound quiet inner (by simpa using absent) declared

section

variable (body : Balances none Eq stmt)

include body

theorem arm : Balances none Eq (Build.arm expr stmt) :=
  (value none).bind fun _ => (act (.emitJump _)).bind fun skip => (act (.emit _)).bind fun _ =>
    body.bind fun _ => (act (.emitJump _)).bind fun exit => (act (.patchJump skip)).bind fun _ =>
    (act (.emit _)).bind fun _ => of_pure exit

theorem arms (fuel : Nat) (exits : List Nat) :
    Balances none Eq (Build.arms expr stmt fuel exits) := by
  induction fuel generalizing exits with
  | zero => exact outside
  | succ fuel ih =>
    refine (arm value body).bind fun exit => (act (.take _)).bind fun more => ?_
    cases more
    · exact of_pure _
    · exact ih _

theorem ifStatement (fuel : Nat) : Balances none Eq (Build.ifStatement expr stmt fuel) := by
  refine (arms value body fuel []).bind fun exits => (act (.take _)).bind fun more => ?_
  cases more
  · exact patchAll _
  · exact body.bind fun _ => patchAll _

theorem whileStatement : Balances none Eq (Build.whileStatement expr stmt) :=
  (act .get).bind fun _ => (value none).bind fun _ => (act (.emitJump _)).bind fun exit =>
    (act (.emit _)).bind fun _ => body.bind fun _ => (act (.emitLoop _)).bind fun _ =>
    (act (.patchJump exit)).bind fun _ => act (.emit _)

theorem declaration : Balances none Scope.Grows (Build.declaration expr stmt) := by
  have reads : Balances none Scope.Grows
      (do if ← Carrier.act (take .kwLet) then Build.letDeclaration expr else stmt) := by
    refine (act (.take _)).bind_to .refl fun more => ?_
    cases more
    · exact body.still .refl
    · exact letDeclaration value
  intro h sound quiet
  have ends := reads sound quiet
  rw [Recorded.run_declaration]
  dsimp only
  revert ends
  generalize EStateM.run _ h = r
  intro ends
  cases r with
  | ok a h' => exact ⟨ends.sound.close rfl ends.scope, ends.pending, ends.scope⟩
  | error e h' => exact ⟨ends.sound.close rfl ends.scope, ends.pending, ends.scope⟩

end

theorem statement (fuel : Nat) : Balances none Eq (Build.statement expr fuel) := by
  induction fuel with
  | zero => exact outside
  | succ fuel ih =>
    refine (act .current).bind fun t => ?_
    split
    · exact (act .advance).bind fun _ => printStatement value
    · exact (act .advance).bind fun _ => ifStatement value ih _
    · exact (act .advance).bind fun _ => whileStatement value ih
    · exact (act .advance).bind fun _ => block (declaration value ih) _
    · exact expressionStatement value

end

theorem text (fuel : Nat) : Balances none Scope.Extends (Recorded.text fuel) :=
  have value (pending : Option Text) : Balances pending Eq _ := expression fuel .assignment
  declarations (declaration value (statement value fuel)) fuel

end Balances

theorem History.start_sound (file : Text) (tokens : List Token) : (start file tokens).Sound := by
  refine ⟨List.forall_mem_singleton.2 ?_, List.forall_mem_nil _⟩
  change (Draft.start file tokens).scope.Sound none
  rw [(start_empty file tokens).1]
  exact ⟨by simp, .nil, .nil, Nat.zero_le _, [], rfl, by simp⟩

/-- A recorded compilation is the compilation. Each call on a declaration that is made on the way is
balanced, and the scope is sound at each moment, whatever faults there are. -/
theorem scopes_are_balanced (file : Text) (tokens : List Token) :
    ∃ h, (Recorded.text (fuelFor file tokens)).run (.start file tokens) = .ok () h ∧
      (text (fuelFor file tokens)).run (Draft.start file tokens) = .ok () h.now.draft ∧
      (Draft.start file tokens).finish = h.now.draft.emit .finish ∧
      (∀ c ∈ h.calls, c.Balanced) ∧
      ∀ m ∈ h.moments, m.Sound ∧
        (m.draft.scope.depth = 0 → m.draft.scope.locals = []) ∧
        ∀ x, (∀ slot l, m.draft.scope.resolve? x = some (slot, l) ↔
            m.draft.scope.Resolves x slot l) ∧
          (m.draft.scope.resolve? x = none ↔ ∀ l ∈ m.draft.scope.locals, l.name ≠ x) := by
  obtain ⟨h, _, _, _, recorded, _⟩ := exists_run_text file tokens (s := History.start file tokens) rfl
  have leads := Balances.text (fuelFor file tokens) (History.start_sound file tokens) rfl
  have run := run_text_eq (s := History.start file tokens) rfl recorded
  rw [show (Recorded.text (fuelFor file tokens)).run _ = _ from recorded] at leads
  refine ⟨h, recorded, run, Draft.finish_of_ok run, leads.sound.calls, fun m mem => ?_⟩
  have sound := leads.sound.moments m mem
  exact ⟨sound, sound.empty, fun x => ⟨fun _ _ => sound.resolve?_eq_some,
    m.draft.scope.resolve?_eq_none x⟩⟩

end StackScript
