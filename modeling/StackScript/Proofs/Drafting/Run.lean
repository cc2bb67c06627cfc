import StackScript.Compiler.Statement

/-! How the steps of a compilation run. The tokens of a draft are the ones from the
current token on; a step that does not read them leaves them as they are. -/

namespace StackScript

namespace Build

variable {α β σ : Type} [Carrier σ]

@[simp] theorem draft_become (o : Occasion) (change : Draft → Draft) (s : σ) :
    Carrier.draft (become o change s) = change (Carrier.draft s) := Carrier.draft_see _ _ _

theorem run_modify_bind (change : Draft → Draft) (f : Unit → Compiling σ α) (s : σ) :
    (act (modify change) >>= f).run s = (f ()).run (become .action change s) := by
  rw [EStateM.run_bind, Carrier.run_act]
  rfl

theorem run_advance_bind (f : Unit → Compiling σ α) (s : σ) :
    (act advance >>= f).run s = (f ()).run (become .action Draft.advance s) := run_modify_bind _ f s

theorem run_current_bind (f : Token → Compiling σ α) (s : σ) :
    (act current >>= f).run s = (f (Carrier.draft s).current).run (become .action id s) := by
  rw [EStateM.run_bind, Carrier.run_act]
  rfl

@[simp] theorem act_eq (x : Build α) : (act x : Compiling Draft α) = x := rfl

theorem become_eq (o : Occasion) (change : Draft → Draft) (d : Draft) :
    become o change d = change d := rfl

@[simp] theorem run_current (d : Draft) : current.run d = .ok d.current d := rfl

@[simp] theorem run_previous (d : Draft) : previous.run d = .ok d.previous d := rfl

@[simp] theorem run_advance (d : Draft) : advance.run d = .ok () d.advance := rfl

@[simp] theorem run_emit (op : Opcode) (d : Draft) : (emit op).run d = .ok () (d.emit op) := rfl

@[simp] theorem run_fail (t : Token) (fault : SyntaxFault) (d : Draft) :
    (fail t fault : Build α).run d = .error .mk (d.report t fault) := rfl

theorem outside_eq : (outside : Build α) = (do fail (← current) .tooDeep) := rfl

@[simp] theorem run_take (kind : TokenKind) (d : Draft) :
    (take kind).run d = if d.current.kind = kind then .ok true d.advance else .ok false d := by
  simp only [take, EStateM.run_bind, EStateM.run_get]
  split <;> rfl

theorem run_take_bind (kind : TokenKind) (f : Bool → Compiling σ α) (s : σ) :
    (act (take kind) >>= f).run s =
      if (Carrier.draft s).current.kind = kind then
        (f true).run (become .action Draft.advance s)
      else (f false).run (become .action id s) := by
  rw [EStateM.run_bind, Carrier.run_act, run_take]
  by_cases found : (Carrier.draft s).current.kind = kind
  · rw [if_pos found, if_pos found]
    rfl
  · rw [if_neg found, if_neg found]
    rfl

@[simp] theorem run_expect (kind : TokenKind) (fault : SyntaxFault) (d : Draft) :
    (expect kind fault).run d = if d.current.kind = kind then .ok () d.advance
      else .error .mk (d.report d.current fault) := by
  simp only [expect, EStateM.run_bind, EStateM.run_get]
  split <;> rfl

theorem run_act_expect (kind : TokenKind) (fault : SyntaxFault) (s : σ) :
    (act (expect kind fault) : Compiling σ Unit).run s =
      if (Carrier.draft s).current.kind = kind then .ok () (become .action Draft.advance s)
      else .error .mk (become .action (fun d => d.report d.current fault) s) := by
  rw [Carrier.run_act, run_expect]
  by_cases found : (Carrier.draft s).current.kind = kind
  · rw [if_pos found, if_pos found]
    rfl
  · rw [if_neg found, if_neg found]
    rfl

@[simp] theorem run_emitJump (op : Opcode) (d : Draft) :
    (emitJump op).run d =
      .ok ((d.emitOpenJump op).chunk.code.size - 2) (d.emitOpenJump op) := rfl

/-- What a literal comes to: its value is a constant, and not a name, or it has none. -/
inductive Loads (t : Token) : Build Unit → Prop where
  | constant {v : Value} (plain : ∀ x, v ≠ .name x) : Loads t (emitConstant v)
  | refusal (fault : SyntaxFault) : Loads t (fail t fault)

theorem integerLiteral_loads (t : Token) : Loads t (integerLiteral t) := by
  unfold integerLiteral
  split
  · exact .constant nofun
  · exact .refusal _

theorem floatLiteral_loads (t : Token) : Loads t (floatLiteral t) := by
  unfold floatLiteral
  split
  · exact .constant nofun
  · exact .refusal _

theorem stringLiteral_loads (t : Token) : Loads t (stringLiteral t) := by
  unfold stringLiteral
  split
  · exact .constant nofun
  · exact .refusal _

theorem run_operand_of_name {self : Level → Build Unit} {assignable : Bool} {d : Draft}
    (kind : d.previous.kind = .identifier) :
    (operand self assignable).run d = (variableUse self assignable d.previous).run d := by
  simp only [operand, act_eq, EStateM.run_bind, run_previous, kind]

theorem run_patchJump (pos : Nat) (d : Draft) :
    (patchJump pos).run d =
      if Draft.maxJump < d.chunk.code.size - pos - 2 then
        .error .mk (d.report d.previous .jumpTooFar)
      else .ok () { d with chunk := d.chunk.patchWide pos (d.chunk.code.size - pos - 2) } := by
  simp only [patchJump, EStateM.run_bind, EStateM.run_get]
  split <;> rfl

theorem run_emitLoop (start : Nat) (d : Draft) :
    (emitLoop start).run d =
      if Draft.maxJump < (d.emit .loop).chunk.code.size + 2 - start then
        .error .mk ((d.emit .loop).report d.previous .loopTooLarge)
      else .ok () ((d.emit .loop).writeWide ((d.emit .loop).chunk.code.size + 2 - start) d.line) := by
  simp only [emitLoop, EStateM.run_bind, run_emit, EStateM.run_get]
  split <;> rfl

theorem run_emitConstant (v : Value) (d : Draft) :
    (emitConstant v).run d =
      if d.chunk.hasRoom then .ok () { d with chunk := d.chunk.writeConstant v d.line }
      else .error .mk (d.report d.previous .fullPool) := by
  simp only [emitConstant, EStateM.run_bind, EStateM.run_get]
  split <;> rfl

theorem run_nameConstant (t : Token) (d : Draft) :
    (nameConstant t).run d =
      match d.names[t.lexeme]? with
      | some index => .ok index d
      | none =>
        if d.chunk.hasRoom then
          .ok d.chunk.constants.size { d with
            chunk := d.chunk.addConstant (.name t.lexeme)
            names := d.names.insert t.lexeme d.chunk.constants.size }
        else .error .mk (d.report t .fullPool) := by
  simp only [nameConstant, EStateM.run_bind, EStateM.run_get]
  cases d.names[t.lexeme]? with
  | some index => rfl
  | none =>
    simp only [EStateM.run_bind, EStateM.run_get]
    split <;> rfl

theorem run_place (t : Token) (d : Draft) :
    (place t).run d =
      match d.scope.resolve? t.lexeme with
      | some (slot, l) =>
        if l.ready then .ok (.slot slot) d
        else .error .mk (d.report t (.ownInitializer t.lexeme))
      | none =>
        match (nameConstant t).run d with
        | .ok index d => .ok (.global index) d
        | .error e d => .error e d := by
  simp only [place, EStateM.run_bind, EStateM.run_get]
  cases d.scope.resolve? t.lexeme with
  | some found =>
    obtain ⟨slot, l⟩ := found
    dsimp only
    split <;> rfl
  | none =>
    simp only [EStateM.run_bind, EStateM.run_pure]
    cases (nameConstant t).run d <;> rfl

theorem run_andThen (body : Compiling σ Unit) (o : Occasion) (change : Draft → Draft) (s : σ) :
    (andThen body o change).run s =
      match body.run s with
      | .ok a s => .ok a (become o change s)
      | .error e s => .error e (become o change s) := rfl

theorem run_declaration_eq (expr stmt : Compiling σ Unit) (s : σ) :
    (declaration expr stmt).run s =
      match (do if ← act (take .kwLet) then letDeclaration expr else stmt : Compiling σ Unit).run s with
      | .ok _ s' => .ok () (become (.ended (Carrier.draft s) false)
          (·.recordSpan (Carrier.draft s).chunk.code.size
            ((Carrier.draft s).current.span.join (Carrier.draft s').previous.span)) s')
      | .error _ s' => .ok () (become (.ended (Carrier.draft s) true) Draft.synchronize s') := rfl

theorem run_declaration (expr stmt : Build Unit) (d : Draft) :
    (declaration expr stmt).run d =
      match (do if ← take .kwLet then letDeclaration expr else stmt : Build Unit).run d with
      | .ok _ d' => .ok () (d'.recordSpan d.chunk.code.size (d.current.span.join d'.previous.span))
      | .error _ d' => .ok () d'.synchronize := by
  rw [run_declaration_eq, act_eq]
  generalize EStateM.run _ d = r
  cases r <;> rfl

theorem run_operations_succ (self : Level → Build Unit) (level : Level) (fuel : Nat) (d : Draft) :
    (operations self level (fuel + 1)).run d =
      if level.rank ≤ (Level.ofOperator d.current.kind).rank then
        (do operation self; operations self level fuel : Build Unit).run d.advance
      else .ok () d := by
  simp only [operations, act_eq, EStateM.run_bind, run_current]
  split <;> rfl

theorem run_bind_eq_ok {x : Build α} {f : α → Build β} {d d' : Draft} {b : β} :
    (x >>= f).run d = .ok b d' ↔ ∃ a d₁, x.run d = .ok a d₁ ∧ (f a).run d₁ = .ok b d' := by
  rw [EStateM.run_bind]
  cases x.run d with
  | ok a d₁ =>
    constructor
    · exact fun h => ⟨a, d₁, rfl, h⟩
    · rintro ⟨_, _, ⟨⟩, h⟩
      exact h
  | error e d₁ => simp

theorem run_bind_congr {x y : Build α} {f g : α → Build β} {d : Draft} (first : x.run d = y.run d)
    (second : ∀ a d', y.run d = .ok a d' → (f a).run d' = (g a).run d') :
    (x >>= f).run d = (y >>= g).run d := by
  rw [EStateM.run_bind, EStateM.run_bind, first]
  cases h : y.run d with
  | ok a d' => exact second a d' h
  | error e d' => rfl

end Build

namespace Draft

def tokens (d : Draft) : List Token := d.current :: d.upcoming

theorem tokens_ne_nil (d : Draft) : d.tokens ≠ [] := List.cons_ne_nil _ _

theorem current_of_tokens {d : Draft} {t : Token} {ts : List Token} (h : d.tokens = t :: ts) :
    d.current = t := (List.cons.inj h).1

theorem tokens_advance {d : Draft} {t : Token} {ts : List Token} (h : d.tokens = t :: ts)
    (running : t.kind ≠ .eof) (more : ts ≠ []) : d.advance.tokens = ts := by
  obtain ⟨rfl, rfl⟩ := List.cons.inj h
  cases upcoming : d.upcoming with
  | nil => exact absurd upcoming more
  | cons u us => simp [advance, running, upcoming, tokens]

theorem advance_eq (d : Draft) : d.advance =
    { d with
      previous := d.current, current := d.advance.current, upcoming := d.advance.upcoming } := by
  unfold advance
  split
  · rfl
  · split <;> rfl

@[simp] theorem advance_previous (d : Draft) : d.advance.previous = d.current := by
  rw [advance_eq]

theorem advance_chunk (d : Draft) : d.advance.chunk = d.chunk := by rw [advance_eq]

theorem advance_spans (d : Draft) : d.advance.spans = d.spans := by rw [advance_eq]

theorem advance_scope (d : Draft) : d.advance.scope = d.scope := by rw [advance_eq]

theorem advance_names (d : Draft) : d.advance.names = d.names := by rw [advance_eq]

theorem advance_faults (d : Draft) :
    d.advance.faults = d.faults ∧ d.advance.recovering = d.recovering :=
  ⟨by rw [advance_eq], by rw [advance_eq]⟩

theorem report_eq (d : Draft) (t : Token) (fault : SyntaxFault) : d.report t fault =
    { d with recovering := true, faults := (d.report t fault).faults } := by
  obtain ⟨_, _, _, _, _, _, _, _, recovering⟩ := d
  cases recovering <;> rfl

@[simp] theorem report_tokens (d : Draft) (t : Token) (fault : SyntaxFault) :
    (d.report t fault).tokens = d.tokens := by
  rw [report_eq]
  rfl

theorem report_previous (d : Draft) (t : Token) (fault : SyntaxFault) :
    (d.report t fault).previous = d.previous := by
  rw [report_eq]

theorem report_chunk (d : Draft) (t : Token) (fault : SyntaxFault) :
    (d.report t fault).chunk = d.chunk := by
  rw [report_eq]

theorem report_scope (d : Draft) (t : Token) (fault : SyntaxFault) :
    (d.report t fault).scope = d.scope := by
  rw [report_eq]

theorem report_names (d : Draft) (t : Token) (fault : SyntaxFault) :
    (d.report t fault).names = d.names := by
  rw [report_eq]

end Draft

end StackScript
