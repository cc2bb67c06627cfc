import StackScript.Proofs.Drafting.Tree
import StackScript.Proofs.Parsing.Pairing

/-! Steps that write the same program. Two drafts may read different tokens and note different lines
and places; what is written to them is the same as long as the steps ask for the same. -/

namespace StackScript

open Build

/-- Two drafts that hold the same program, and know the same variables. -/
structure Draft.Matches (d e : Draft) : Prop where
  scope : d.scope = e.scope
  names : d.names = e.names
  code : d.chunk.code = e.chunk.code
  constants : d.chunk.constants = e.chunk.constants

namespace Draft.Matches

variable {d e f : Draft}

theorem symm (h : d.Matches e) : e.Matches d :=
  ⟨h.scope.symm, h.names.symm, h.code.symm, h.constants.symm⟩

theorem trans (h : d.Matches e) (h' : e.Matches f) : d.Matches f :=
  ⟨h.scope.trans h'.scope, h.names.trans h'.names, h.code.trans h'.code,
    h.constants.trans h'.constants⟩

theorem size (h : d.Matches e) : d.chunk.code.size = e.chunk.code.size := congrArg Array.size h.code

theorem hasRoom (h : d.Matches e) : d.chunk.hasRoom = e.chunk.hasRoom := by
  rw [Chunk.hasRoom, Chunk.hasRoom, h.constants]

theorem of_advance (d : Draft) : d.advance.Matches d :=
  ⟨d.advance_scope, d.advance_names, congrArg Chunk.code d.advance_chunk,
    congrArg Chunk.constants d.advance_chunk⟩

theorem advance_left (h : d.Matches e) : d.advance.Matches e := (of_advance d).trans h

theorem advance_right (h : d.Matches e) : d.Matches e.advance := h.trans (of_advance e).symm

theorem advance (h : d.Matches e) : d.advance.Matches e.advance := h.advance_left.advance_right

theorem recordSpan (h : d.Matches e) (start start' : Nat) (s s' : Span) :
    (d.recordSpan start s).Matches (e.recordSpan start' s') :=
  ⟨h.scope, h.names, h.code, h.constants⟩

theorem write (h : d.Matches e) (b : UInt8) (line line' : Int) :
    (d.write b line).Matches (e.write b line') :=
  { h with code := congrArg (·.push b) h.code }

theorem writeWide (h : d.Matches e) (n : Nat) (line line' : Int) :
    (d.writeWide n line).Matches (e.writeWide n line') := (h.write _ line line').write _ line line'

theorem emitAt (h : d.Matches e) (op : Opcode) (t u : Token) :
    (d.emitAt op t).Matches (e.emitAt op u) := (h.write _ _ _).recordSpan _ _ _ _

theorem emitWide (h : d.Matches e) (op : Opcode) (n : Nat) :
    (d.emitWide op n).Matches (e.emitWide op n) := (h.write _ _ _).writeWide _ _ _

theorem emitGet (h : d.Matches e) (p : Place) (t u : Token) :
    (p.emitGet t d).Matches (p.emitGet u e) := by
  cases p with
  | slot n => exact ((h.write _ _ _).write _ _ _).recordSpan _ _ _ _
  | global n => exact ((h.write _ _ _).writeWide _ _ _).recordSpan _ _ _ _

theorem emitSet (h : d.Matches e) (p : Place) (t u : Token) :
    (p.emitSet t d).Matches (p.emitSet u e) := by
  cases p with
  | slot n => exact ((h.write _ _ _).write _ _ _).recordSpan _ _ _ _
  | global n => exact ((h.write _ _ _).writeWide _ _ _).recordSpan _ _ _ _

theorem patchWide (h : d.Matches e) (i n : Nat) :
    Draft.Matches { d with chunk := d.chunk.patchWide i n }
      { e with chunk := e.chunk.patchWide i n } := by
  refine { h with code := ?_ }
  simp only [Chunk.patchWide, h.code]

theorem addConstant (h : d.Matches e) (v : Value) (names : Std.TreeMap Text Nat compare) :
    Draft.Matches { d with chunk := d.chunk.addConstant v, names }
      { e with chunk := e.chunk.addConstant v, names } :=
  { h with constants := congrArg (·.push v) h.constants, names := rfl }

theorem writeConstant (h : d.Matches e) (v : Value) (line line' : Int) :
    Draft.Matches { d with chunk := d.chunk.writeConstant v line }
      { e with chunk := e.chunk.writeConstant v line' } := by
  have added : Draft.Matches { d with chunk := d.chunk.addConstant v }
      { e with chunk := e.chunk.addConstant v } :=
    { h with constants := congrArg (·.push v) h.constants }
  simp only [Chunk.writeConstant, h.constants]
  exact (added.write _ line line').writeWide _ line line'

theorem rescope (h : d.Matches e) (f : Scope → Scope) :
    Draft.Matches { d with scope := f d.scope } { e with scope := f e.scope } :=
  { h with scope := congrArg f h.scope }

theorem emitPops (n : Nat) (h : d.Matches e) : (emitPops n d).Matches (emitPops n e) := by
  induction n generalizing d e with
  | zero => exact h
  | succ n ih => exact ih (h.write _ _ _)

theorem leaveBlock (h : d.Matches e) : d.leaveBlock.Matches e.leaveBlock := by
  rw [Draft.leaveBlock, Draft.leaveBlock, h.scope]
  exact emitPops _ { h with scope := rfl }

end Draft.Matches

/-- Both runs end with the same result and the same program, or both are given up. -/
def WrittenAlike {α : Type} : EStateM.Result GivenUp Draft α → EStateM.Result GivenUp Draft α → Prop :=
  Ends (fun a b d e => a = b ∧ d.Matches e) fun _ _ => True

/-- Two steps that write the same, whatever drafts of one program they are taken from. -/
def WritesAlike {α : Type} (x y : Build α) : Prop :=
  ∀ ⦃d e : Draft⦄, d.Matches e → WrittenAlike (x.run d) (y.run e)

namespace WritesAlike

variable {α β : Type} {x y : Build α} {f g : α → Build β}

theorem bind (first : WritesAlike x y) (second : ∀ a, WritesAlike (f a) (g a)) :
    WritesAlike (x >>= f) (y >>= g) := by
  intro d e h
  refine Ends.bind (first h) ?_
  rintro a _ d' e' ⟨rfl, h'⟩
  exact second a h'

theorem of_get {f g : Draft → Build β}
    (h : ∀ ⦃d e : Draft⦄, d.Matches e → WrittenAlike ((f d).run d) ((g e).run e)) :
    WritesAlike (get >>= f) (get >>= g) := fun _ _ alike => h alike

theorem of_modify {f g : Draft → Draft} (h : ∀ ⦃d e : Draft⦄, d.Matches e → (f d).Matches (g e)) :
    WritesAlike (modify f) (modify g) := fun _ _ alike => ⟨rfl, h alike⟩

theorem of_pure (a : α) : WritesAlike (pure a) (pure a) := fun _ _ h => ⟨rfl, h⟩

theorem of_fail (t u : Token) (fault fault' : SyntaxFault) :
    WritesAlike (fail t fault : Build α) (fail u fault') := fun _ _ _ => trivial

theorem of_advance : WritesAlike advance advance := of_modify fun _ _ h => h.advance

theorem of_emit (op : Opcode) : WritesAlike (emit op) (emit op) := of_modify fun _ _ h => h.write _ _ _

theorem of_emitFor (op : Option Opcode) (t u : Token) : WritesAlike (emitFor op t) (emitFor op u) := by
  cases op with
  | none => exact of_pure ()
  | some op => exact of_modify fun _ _ h => h.emitAt op t u

theorem of_emitJump (op : Opcode) : WritesAlike (emitJump op) (emitJump op) := by
  intro d e h
  have jump : (d.emitOpenJump op).Matches (e.emitOpenJump op) := h.emitWide op _
  exact ⟨congrArg (· - 2) jump.size, jump⟩

theorem of_patchJump (pos : Nat) : WritesAlike (patchJump pos) (patchJump pos) := by
  intro d e h
  rw [run_patchJump, run_patchJump, ← h.size]
  split
  · exact trivial
  · exact ⟨rfl, h.patchWide _ _⟩

theorem of_emitLoop (start : Nat) : WritesAlike (emitLoop start) (emitLoop start) := by
  intro d e h
  have emitted : (d.emit .loop).Matches (e.emit .loop) := h.write _ _ _
  rw [run_emitLoop, run_emitLoop, ← emitted.size]
  split
  · exact trivial
  · exact ⟨rfl, emitted.writeWide _ _ _⟩

theorem of_emitConstant (v : Value) : WritesAlike (emitConstant v) (emitConstant v) := by
  intro d e h
  rw [run_emitConstant, run_emitConstant, ← h.hasRoom]
  split
  · exact ⟨rfl, h.writeConstant _ _ _⟩
  · exact trivial

theorem of_nameConstant {t u : Token} (same : t.lexeme = u.lexeme) :
    WritesAlike (nameConstant t) (nameConstant u) := by
  intro d e h
  rw [run_nameConstant, run_nameConstant, ← h.names, ← same, ← h.hasRoom]
  cases d.names[t.lexeme]? with
  | some i => exact ⟨rfl, h⟩
  | none =>
    dsimp only
    split
    · refine ⟨congrArg Array.size h.constants, ?_⟩
      rw [h.constants]
      exact h.addConstant _ _
    · exact trivial

theorem of_place (t : Token) : WritesAlike (place t) (place t) := by
  refine of_get fun d e h => ?_
  rw [← h.scope]
  cases d.scope.resolve? t.lexeme with
  | some found =>
    obtain ⟨slot, l⟩ := found
    dsimp only
    split
    · exact ⟨rfl, h⟩
    · exact trivial
  | none => exact (of_nameConstant rfl).bind (fun i => of_pure (Place.global i)) h

theorem of_loads {t : Token} {x : Build Unit} (h : Loads t x) : WritesAlike x x := by
  cases h with
  | constant _ => exact of_emitConstant _
  | refusal fault => exact of_fail t t fault fault

theorem of_literal (t : Token) : WritesAlike (Build.literal t) (Build.literal t) := by
  rcases literal_cases t with loads | ⟨op, same⟩
  · exact of_loads loads
  · rw [same]
    exact of_emit op

theorem of_conjunction {x y : Build Unit} (h : WritesAlike x y) :
    WritesAlike (conjunction fun _ => x) (conjunction fun _ => y) :=
  (of_emitJump _).bind fun exit => (of_emit _).bind fun _ => h.bind fun _ => of_patchJump exit

theorem of_disjunction {x y : Build Unit} (h : WritesAlike x y) :
    WritesAlike (disjunction fun _ => x) (disjunction fun _ => y) :=
  (of_emitJump _).bind fun otherwise => (of_emitJump _).bind fun exit =>
    (of_patchJump otherwise).bind fun _ => (of_emit _).bind fun _ => h.bind fun _ => of_patchJump exit

theorem of_arm {c c' s s' : Build Unit} (condition : WritesAlike c c') (body : WritesAlike s s') :
    WritesAlike (arm c s) (arm c' s') :=
  condition.bind fun _ => (of_emitJump _).bind fun skip => (of_emit _).bind fun _ =>
    body.bind fun _ => (of_emitJump _).bind fun exit => (of_patchJump skip).bind fun _ =>
      (of_emit _).bind fun _ => of_pure exit

theorem of_whileStatement {c c' s s' : Build Unit} (condition : WritesAlike c c')
    (body : WritesAlike s s') : WritesAlike (whileStatement c s) (whileStatement c' s') := by
  refine of_get fun d e h => ?_
  rw [h.size]
  exact (condition.bind fun _ => (of_emitJump .jumpFalse).bind fun exit =>
    (of_emit .pop).bind fun _ => body.bind fun _ => (of_emitLoop e.chunk.code.size).bind fun _ =>
      (of_patchJump exit).bind fun _ => of_emit .pop) h

theorem of_patchAll (exits : List Nat) : WritesAlike (patchAll exits) (patchAll exits) := by
  induction exits with
  | nil => exact of_pure ()
  | cons pos rest ih => exact (of_patchJump pos).bind fun _ => ih

theorem of_andThen {x y : Build Unit} {o : Occasion} {f g : Draft → Draft} (h : WritesAlike x y)
    (after : ∀ ⦃d e : Draft⦄, d.Matches e → (f d).Matches (g e)) :
    WritesAlike (andThen x o f) (andThen y o g) := by
  intro d e alike
  rw [run_andThen, run_andThen]
  have ends := h alike
  revert ends
  generalize x.run d = r, y.run e = r'
  intro ends
  cases r <;> cases r'
  · exact ⟨rfl, after ends.2⟩
  · exact ends
  · exact ends
  · exact trivial

theorem of_declare (name : Token) {x y : Build Unit} (h : WritesAlike x y) :
    WritesAlike (declare name x) (declare name y) := by
  refine of_get fun d e alike => ?_
  rw [← alike.scope]
  dsimp only
  split
  · exact (h.bind fun _ => (of_nameConstant rfl).bind fun index =>
      of_modify fun _ _ alike => alike.emitWide .defGlobal index) alike
  · split
    · exact trivial
    · cases d.scope.declare? name.lexeme with
      | none => exact trivial
      | some scope =>
        have ready := h.of_andThen (o := .ready) fun _ _ alike => alike.rescope Scope.markReady
        exact ((of_modify fun _ _ alike => alike.rescope fun _ => scope).bind fun _ => ready) alike

theorem of_marked {x y : Build Unit} (h : WritesAlike x y) (span span' : Span) :
    WritesAlike (marked span x) (marked span' y) :=
  of_get fun _ _ alike => (h.bind fun _ => of_modify fun _ _ after => after.recordSpan _ _ _ _) alike

end WritesAlike

end StackScript
