import StackScript.Proofs.Drafting.Tree
import StackScript.Proofs.Syntax.Grammar

/-! What a compilation along a tree reads: exactly the tokens of the tree. As long as
it goes well it records no fault. -/

namespace StackScript

open Build

structure Draft.SameReading (d d' : Draft) : Prop where
  tokens : d'.tokens = d.tokens
  faults : d'.faults = d.faults
  recovering : d'.recovering = d.recovering
  previous : d'.previous = d.previous

def Takes {α : Type} (ts : List Token) (x : Build α) : Prop :=
  ∀ ⦃d rest a d'⦄, d.tokens = ts ++ rest → rest ≠ [] → x.run d = .ok a d' →
    d'.tokens = rest ∧ d'.faults = d.faults ∧ d'.recovering = d.recovering ∧
      d'.previous = ts.getLast?.getD d.previous

namespace Takes

variable {α β : Type} {ts us : List Token}

theorem bind {x : Build α} {f : α → Build β} (first : Takes ts x) (second : ∀ a, Takes us (f a)) :
    Takes (ts ++ us) (x >>= f) := by
  intro d rest b d' h more run
  obtain ⟨a, d₁, run₁, run₂⟩ := run_bind_eq_ok.1 run
  rw [List.append_assoc] at h
  obtain ⟨tokens, faults, recovering, previous⟩ := first h (by simp [more]) run₁
  obtain ⟨tokens', faults', recovering', previous'⟩ := second a tokens more run₂
  refine ⟨tokens', faults'.trans faults, recovering'.trans recovering, ?_⟩
  rw [previous', previous, List.getLast?_append, Option.getD_or]

theorem bind_left {x : Build α} {f : α → Build β} (first : Takes ts x)
    (second : ∀ a, Takes [] (f a)) : Takes ts (x >>= f) := by
  simpa using first.bind second

theorem bind_right {x : Build α} {f : α → Build β} (first : Takes [] x)
    (second : ∀ a, Takes ts (f a)) : Takes ts (x >>= f) := first.bind second

theorem of_pure (a : α) : Takes [] (pure a : Build α) := by
  intro d rest b d' h _ run
  cases run
  exact ⟨h, rfl, rfl, rfl⟩

theorem of_get : Takes [] (get : Build Draft) := by
  intro d rest b d' h _ run
  cases run
  exact ⟨h, rfl, rfl, rfl⟩

theorem of_modify {f : Draft → Draft} (same : ∀ d : Draft, d.SameReading (f d)) :
    Takes [] (modify f : Build Unit) := by
  intro d rest b d' h _ run
  cases run
  exact ⟨(same d).tokens.trans h, (same d).faults, (same d).recovering, (same d).previous⟩

theorem of_fail (t : Token) (fault : SyntaxFault) : Takes ts (fail t fault : Build α) := by
  intro d rest b d' _ _ run
  cases run

theorem of_ite {p : Prop} [Decidable p] {x y : Build α} (yes : Takes ts x) (no : Takes ts y) :
    Takes ts (if p then x else y) := by
  split
  · exact yes
  · exact no

theorem of_advance {t : Token} (running : t.kind ≠ .eof) : Takes [t] advance := by
  intro d rest b d' h more run
  cases run
  obtain ⟨faults, recovering⟩ := d.advance_faults
  refine ⟨Draft.tokens_advance h running more, faults, recovering, ?_⟩
  rw [Draft.advance_previous, Draft.current_of_tokens h]
  rfl

theorem of_emit (op : Opcode) : Takes [] (emit op) := of_modify fun _ => ⟨rfl, rfl, rfl, rfl⟩

theorem of_emitFor (op : Option Opcode) (t : Token) : Takes [] (emitFor op t) := by
  cases op with
  | some op => exact of_modify fun _ => ⟨rfl, rfl, rfl, rfl⟩
  | none => exact of_pure ()

theorem of_emitConstant (v : Value) : Takes [] (emitConstant v) := by
  refine of_get.bind_right fun d => of_ite (of_modify fun _ => ⟨rfl, rfl, rfl, rfl⟩) ?_
  exact of_get.bind_right fun _ => of_fail _ _

theorem of_loads {t : Token} {x : Build Unit} (h : Loads t x) : Takes [] x := by
  cases h with
  | constant _ => exact of_emitConstant _
  | refusal fault => exact of_fail t fault

theorem of_literal (t : Token) : Takes [] (literal t) := by
  rcases literal_cases t with loads | ⟨op, same⟩
  · exact of_loads loads
  · rw [same]
    exact of_emit op

theorem of_nameConstant (t : Token) : Takes [] (nameConstant t) := by
  refine of_get.bind_right fun d => ?_
  split
  · exact of_pure _
  · refine of_get.bind_right fun _ => of_ite ?_ (of_fail _ _)
    refine of_get.bind_right fun _ => bind_right (of_modify ?_) fun _ => of_pure _
    exact fun _ => ⟨rfl, rfl, rfl, rfl⟩

theorem of_place (t : Token) : Takes [] (place t) := by
  refine of_get.bind_right fun d => ?_
  split
  · exact of_ite (of_pure _) (of_fail _ _)
  · exact (of_nameConstant t).bind_right fun _ => of_pure _

theorem of_emitGet (p : Place) (t : Token) : Takes [] (modify (p.emitGet t) : Build Unit) := by
  cases p <;> exact of_modify fun _ => ⟨rfl, rfl, rfl, rfl⟩

theorem of_emitSet (p : Place) (t : Token) : Takes [] (modify (p.emitSet t) : Build Unit) := by
  cases p <;> exact of_modify fun _ => ⟨rfl, rfl, rfl, rfl⟩

theorem of_emitJump (op : Opcode) : Takes [] (emitJump op) := by
  refine bind_right (of_modify ?_) fun _ => of_get.bind_right fun _ => of_pure _
  exact fun _ => ⟨rfl, rfl, rfl, rfl⟩

theorem of_patchJump (pos : Nat) : Takes [] (patchJump pos) := by
  refine of_get.bind_right fun d => of_ite ?_ (of_modify fun _ => ⟨rfl, rfl, rfl, rfl⟩)
  exact of_get.bind_right fun _ => of_fail _ _

theorem of_patchAll (exits : List Nat) : Takes [] (patchAll exits) := by
  induction exits with
  | nil => exact of_pure ()
  | cons pos rest ih => exact (of_patchJump pos).bind_right fun _ => ih

theorem of_emitLoop (start : Nat) : Takes [] (emitLoop start) := by
  refine (of_emit _).bind_right fun _ => of_get.bind_right fun d => of_ite ?_ ?_
  · exact of_get.bind_right fun _ => of_fail _ _
  · exact of_modify fun _ => ⟨rfl, rfl, rfl, rfl⟩

theorem of_conjunction {body : Build Unit} (h : Takes ts body) :
    Takes ts (conjunction fun _ => body) :=
  (of_emitJump _).bind_right fun _ => (of_emit _).bind_right fun _ =>
    h.bind_left fun _ => of_patchJump _

theorem of_disjunction {body : Build Unit} (h : Takes ts body) :
    Takes ts (disjunction fun _ => body) :=
  (of_emitJump _).bind_right fun _ => (of_emitJump _).bind_right fun _ =>
    (of_patchJump _).bind_right fun _ => (of_emit _).bind_right fun _ =>
      h.bind_left fun _ => of_patchJump _

theorem of_arm {condition body : Build Unit} (first : Takes ts condition) (second : Takes us body) :
    Takes (ts ++ us) (arm condition body) :=
  first.bind fun _ => (of_emitJump _).bind_right fun _ => (of_emit _).bind_right fun _ =>
    second.bind_left fun _ => (of_emitJump _).bind_right fun _ =>
      (of_patchJump _).bind_right fun _ => (of_emit _).bind_right fun _ => of_pure _

theorem of_whileStatement {condition body : Build Unit} (first : Takes ts condition)
    (second : Takes us body) : Takes (ts ++ us) (whileStatement condition body) :=
  of_get.bind_right fun _ => first.bind fun _ => (of_emitJump _).bind_right fun _ =>
    (of_emit _).bind_right fun _ => second.bind_left fun _ => (of_emitLoop _).bind_right fun _ =>
      (of_patchJump _).bind_right fun _ => of_emit _

theorem of_marked {body : Build Unit} (span : Span) (h : Takes ts body) :
    Takes ts (marked span body) :=
  of_get.bind_right fun _ => h.bind_left fun _ =>
    of_modify fun d => by
      unfold Draft.recordSpan
      exact ⟨rfl, rfl, rfl, rfl⟩

theorem of_andThen {body : Build Unit} {o : Occasion} {change : Draft → Draft} (h : Takes ts body)
    (same : ∀ d : Draft, d.SameReading (change d)) : Takes ts (andThen body o change) := by
  intro d rest b d' tokens more run
  rw [run_andThen] at run
  cases body_run : body.run d with
  | ok _ d₁ =>
    rw [body_run] at run
    cases run
    obtain ⟨tokens', faults, recovering, previous⟩ := h tokens more body_run
    exact ⟨(same d₁).tokens.trans tokens', (same d₁).faults.trans faults,
      (same d₁).recovering.trans recovering, (same d₁).previous.trans previous⟩
  | error e d₁ =>
    rw [body_run] at run
    cases run

theorem of_declare {value : Build Unit} (name : Token) (h : Takes ts value) :
    Takes ts (declare name value) := by
  refine of_get.bind_right fun d => of_ite ?_ (of_ite (of_fail _ _) ?_)
  · refine h.bind_left fun _ => (of_nameConstant _).bind_left fun _ => of_modify ?_
    exact fun _ => ⟨rfl, rfl, rfl, rfl⟩
  · split
    · exact of_fail _ _
    · refine bind_right (of_modify ?_) fun _ => of_andThen h ?_
      all_goals exact fun _ => ⟨rfl, rfl, rfl, rfl⟩

end Takes

open Grammar Takes

theorem Grammar.Expression.takes {l : Level} {ts : List Token} {e : Expr}
    (h : Expression l ts e) : Takes ts e.build := by
  induction h with
  | assign target op _ ih =>
    exact (of_advance (by simp [target])).bind fun _ => (of_place _).bind_right fun _ =>
      (of_advance (by simp [op])).bind fun _ => ih.bind_left fun _ => of_emitSet _ _
  | compound target op _ ih =>
    have running := ne_of_mem_of_not_mem op (by decide : TokenKind.eof ∉ compounds)
    exact (of_advance (by simp [target])).bind fun _ => (of_place _).bind_right fun _ =>
      (of_advance running).bind fun _ => (of_emitGet _ _).bind_right fun _ =>
        ih.bind_left fun _ => (of_emitFor _ _).bind_right fun _ => of_emitSet _ _
  | tighter _ _ ih => exact ih
  | conditional _ mark _ colon _ ihc iha ihb =>
    exact ihc.bind fun _ => (of_advance (by simp [mark])).bind fun _ => iha.bind fun _ =>
      (of_advance (by simp [colon])).bind fun _ => ihb.bind_left fun _ =>
        of_modify fun _ => ⟨rfl, rfl, rfl, rfl⟩
  | or _ op _ iha ihb =>
    exact iha.bind fun _ => (of_advance (by simp [op])).bind fun _ => of_disjunction ihb
  | and _ op _ iha ihb =>
    exact iha.bind fun _ => (of_advance (by simp [op])).bind fun _ => of_conjunction ihb
  | binary _ op _ iha ihb =>
    have running := ne_of_mem_of_not_mem op (eof_not_mem_operators _)
    exact iha.bind fun _ => (of_advance running).bind fun _ => ihb.bind_left fun _ =>
      of_emitFor _ _
  | unary op _ ih =>
    refine (of_advance ?_).bind fun _ => ih.bind_left fun _ => of_modify fun _ => ⟨rfl, rfl, rfl, rfl⟩
    rcases op with op | op
    all_goals simp [op]
  | literal kind =>
    have running := ne_of_mem_of_not_mem kind (by decide : TokenKind.eof ∉ literals)
    exact (of_advance running).bind_left fun _ => of_literal _
  | name kind =>
    exact (of_advance (by simp [kind])).bind_left fun _ => (of_place _).bind_left fun _ =>
      of_emitGet _ _
  | group opening _ closing ih =>
    exact (of_advance (by simp [opening])).bind fun _ => ih.bind fun _ =>
      of_advance (by simp [closing])

theorem Draft.enterBlock_sameReading (d : Draft) : d.SameReading d.enterBlock :=
  ⟨rfl, rfl, rfl, rfl⟩

theorem Draft.leaveBlock_sameReading (d : Draft) : d.SameReading d.leaveBlock := by
  have pops : ∀ n (d : Draft), d.SameReading (Draft.emitPops n d) := by
    intro n
    induction n with
    | zero => exact fun _ => ⟨rfl, rfl, rfl, rfl⟩
    | succ n ih =>
      intro d
      obtain ⟨tokens, faults, recovering, previous⟩ := ih (d.emit .pop)
      exact ⟨tokens, faults, recovering, previous⟩
  obtain ⟨tokens, faults, recovering, previous⟩ :=
    pops d.scope.owned { d with scope := d.scope.leave }
  exact ⟨tokens, faults, recovering, previous⟩

mutual

theorem Grammar.Statement.takes {ts : List Token} {s : Stmt} : Statement ts s → Takes ts s.build
  | .print word e semicolon =>
    (of_advance (by simp [word])).bind fun _ => e.takes.bind fun _ =>
      (of_advance (by simp [semicolon])).bind_left fun _ => of_emit _
  | .expression e semicolon =>
    e.takes.bind fun _ => (of_advance (by simp [semicolon])).bind_left fun _ => of_emit _
  | .branch word c s r _ => by
    have arms := (of_arm c.takes s.takes).bind fun exit => r.takes [exit]
    rw [List.append_assoc] at arms
    exact (of_advance (by simp [word])).bind fun _ => arms
  | .loop word c s =>
    (of_advance (by simp [word])).bind fun _ => of_whileStatement c.takes s.takes
  | .block opening ds closing =>
    (of_advance (by simp [opening])).bind fun _ =>
      (of_modify Draft.enterBlock_sameReading).bind_right fun _ => ds.takes.bind fun _ =>
        (of_advance (by simp [closing])).bind_left fun _ => of_modify Draft.leaveBlock_sameReading

theorem Grammar.Continuation.takes {ts : List Token} {r : Rest} :
    Continuation ts r → ∀ exits, Takes ts (r.build exits)
  | .done, exits => of_patchAll exits.reverse
  | .elif word c s r _, exits => by
    have arms := (of_arm c.takes s.takes).bind fun exit => r.takes (exit :: exits)
    rw [List.append_assoc] at arms
    exact (of_advance (by simp [word])).bind fun _ => arms
  | .otherwise word s, exits =>
    (of_advance (by simp [word])).bind fun _ => s.takes.bind_left fun _ => of_patchAll _

theorem Grammar.Declaration.takes {ts : List Token} {d : Decl} :
    Declaration ts d → Takes ts d.body
  | .bind word name semicolon =>
    (of_advance (by simp [word])).bind fun _ => (of_advance (by simp [name])).bind fun _ =>
      of_declare _ ((of_emit _).bind_right fun _ => of_advance (by simp [semicolon]))
  | .bindTo word name equals e semicolon =>
    (of_advance (by simp [word])).bind fun _ => (of_advance (by simp [name])).bind fun _ =>
      of_declare _ ((of_advance (by simp [equals])).bind fun _ => e.takes.bind fun _ =>
        of_advance (by simp [semicolon]))
  | .statement s => s.takes

theorem Grammar.Program.takes {ts : List Token} {ds : List Decl} :
    Program ts ds → Takes ts (buildAll ds)
  | .nil => of_pure ()
  | .cons d ds => (of_marked _ d.takes).bind fun _ => ds.takes

end

end StackScript
