import StackScript.Proofs.FaultOrder

/-! Compilation ends. What a compilation does where its fuel is used up, or where an operator has no
rule, is left open here. With as much fuel as there are tokens left, that never happens: the results
are those of the compilation, whatever would be done there. For a declaration, a statement and an
expression all read a token before anything else, or are given up at the end. -/

namespace StackScript

open Build Carrier

/-- A draft to which anything may have been done when the fuel is used up. -/
def Bounded (_stuck : Draft → Draft) : Type := Draft

instance (stuck : Draft → Draft) : Carrier (Bounded stuck) where
  draft d := d
  see _ d _ := d
  act x := x
  stuck := stuck
  draft_see _ _ _ := rfl
  run_act x d := @run_act Draft _ _ x d

namespace Bounded

def expression (stuck : Draft → Draft) (bound : Nat) (level : Level) : Build Unit :=
  (Build.expression bound level : Compiling (Bounded stuck) Unit)

def statement (stuck : Draft → Draft) (expr : Build Unit) (bound : Nat) : Build Unit :=
  (Build.statement expr bound : Compiling (Bounded stuck) Unit)

def text (stuck : Draft → Draft) (bound : Nat) : Build Unit :=
  (Build.text bound : Compiling (Bounded stuck) Unit)

end Bounded

def ending : Alone where
  begins := Draft.Ended
  runs := Draft.Ended
  lost := Draft.Ended
  known _ _ := True

theorem ending_laws : ending.Laws where
  ended := id
  begins := id
  current _ := trivial
  previous _ := trivial
  keep known _ := known
  read ended running := (ended.advance running).2
  refuse {d fault} ended := by
    have left : d.Left d.tokens.length := ⟨ended, Nat.le_refl _⟩
    exact left.advance.ended.same (d.advance.report_tokens _ fault)
  fail {d t fault} ended _ := ended.same (d.report_tokens t fault)
  write ended same _ := ended.same same.tokens
  write_lost ended same _ := ended.same same.tokens

def same : Pairing := ending.pairing

theorem same_laws : same.Laws := ending.laws ending_laws

def together : Survey where
  pairing _ := same
  between _ d e := d = e ∧ d.Ended

theorem together_laws : together.Laws where
  pairing _ := same_laws
  offset _ _ := rfl
  finish := by
    rintro j j' d d' _ _ ⟨rfl, _⟩ ⟨rfl, ended⟩
    exact ⟨rfl, ended⟩
  recover := by
    rintro j j' d d' _ _ ⟨rfl, _⟩ ⟨rfl, ended⟩
    have left : d'.Left d'.tokens.length := ⟨ended, Nat.le_refl _⟩
    exact ⟨rfl, (Draft.Onto.refl left).synchronize.left.ended⟩

theorem together_nested : together.Nested where
  kind h := congrArg (·.current.kind) h.1
  again h _ := h
  enter := by
    rintro j d _ ⟨rfl, ended⟩ kind
    exact ⟨rfl, (ended.advance (by simp [kind])).2⟩
  close := by
    rintro j d _ ⟨rfl, ended⟩ _ kind
    exact ⟨rfl, (ended.advance (by simp [kind])).2.same d.advance.leaveBlock_sameReading.tokens⟩
  unclosed := by
    rintro j d _ fault ⟨rfl, ended⟩ _ _
    have reported := ended.same (d.report_tokens d.current fault)
    exact ⟨rfl, reported.same (d.report d.current fault).leaveBlock_sameReading.tokens⟩

namespace Bounded

/-- A run ends in one way, whatever bound above the number of tokens left it has and whatever is done
out of bounds. So does the compiler's own. -/
def EndsIn (d : Draft) (bounded : (Draft → Draft) → Nat → Build Unit) (own : Nat → Build Unit)
    (r : EStateM.Result GivenUp Draft Unit) : Prop :=
  ∀ stuck n, d.tokens.length ≤ n → (bounded stuck n).run d = r ∧ (own n).run d = r

def Progresses (d : Draft) : EStateM.Result GivenUp Draft Unit → Prop
  | .ok _ d' => d'.Ended ∧ d'.tokens.length < d.tokens.length
  | .error _ d' => d'.Ended ∧ (d.current.kind = .eof ∨ d'.tokens.length < d.tokens.length)

def outcome : EStateM.Result GivenUp Watch Unit → EStateM.Result GivenUp Draft Unit
  | .ok _ w => .ok () w.draft
  | .error _ w => .error .mk w.draft

/-- A compilation ends like a watched one, with the same draft. -/
def Tells {σ : Type} [Carrier σ] (well ill : Draft → Prop) :
    EStateM.Result GivenUp σ Unit → EStateM.Result GivenUp Watch Unit → Prop :=
  Ends (fun _ _ s w => draft s = w.draft ∧ well w.draft)
    (fun s w => draft s = w.draft ∧ ill w.draft)

section

variable {d : Draft} {well ill : Draft → Prop} {r' : EStateM.Result GivenUp Watch Unit}

theorem Tells.eq {r : EStateM.Result GivenUp Draft Unit} (h : Tells well ill r r') :
    r = outcome r' := by
  cases r <;> cases r'
  · exact congrArg _ h.1
  · exact h.elim
  · exact h.elim
  · exact congrArg _ h.1

theorem Tells.eq_bounded {stuck : Draft → Draft} {r : EStateM.Result GivenUp (Bounded stuck) Unit}
    (h : Tells well ill r r') : r = outcome r' := by
  cases r <;> cases r'
  · exact congrArg (EStateM.Result.ok ()) h.1
  · exact h.elim
  · exact h.elim
  · exact congrArg (EStateM.Result.error GivenUp.mk) h.1

theorem Tells.exists_ok {σ : Type} [Carrier σ] {r : EStateM.Result GivenUp σ Unit}
    (h : Tells well (fun _ => False) r r') : ∃ d', outcome r' = .ok () d' ∧ well d' := by
  cases r <;> cases r'
  · exact ⟨_, rfl, h.2⟩
  · exact h.elim
  · exact h.elim
  · exact h.2.elim

/-- What every compilation does like one that is watched does not depend on what is done when the
fuel is used up. -/
theorem EndsIn.of_tells (x : {σ : Type} → [Carrier σ] → Nat → Compiling σ Unit) {y : Watched Unit}
    (tells : ∀ {σ : Type} [Carrier σ] {s : σ} {n : Nat}, draft s = d → d.tokens.length ≤ n →
      Tells well ill ((x n).run s) (y.run ⟨d, []⟩)) :
    EndsIn d (fun stuck n => (x n : Compiling (Bounded stuck) Unit)) (fun n => x n)
      (outcome (y.run ⟨d, []⟩)) :=
  fun stuck _ enough =>
    ⟨(@tells (Bounded stuck) _ _ _ rfl enough).eq_bounded, (@tells Draft _ _ _ rfl enough).eq⟩

theorem advance_fewer (ended : d.Ended) (running : d.current.kind ≠ .eof) :
    d.advance.tokens.length < d.tokens.length := by
  rw [(ended.advance running).1]
  exact Nat.lt_succ_self _

theorem Progresses.of_tells {r : EStateM.Result GivenUp Draft Unit} (ended : d.Ended)
    (h : Tells d.advance.Onto d.advance.Onto r r') (refused : d.current.kind = .eof → ∃ d', r = .error .mk d') :
    Progresses d (outcome r') := by
  by_cases ends : d.current.kind = .eof
  · -- Nothing is read at the end, so no count would go down.
    obtain ⟨d', rfl⟩ := refused ends
    cases r' with
    | ok _ _ => exact h.elim
    | error _ _ => exact ⟨h.2.left.ended, .inl ends⟩
  · have fewer := advance_fewer ended ends
    cases r <;> cases r'
    · exact ⟨h.2.left.ended, Nat.lt_of_le_of_lt h.2.left.count fewer⟩
    · exact h.elim
    · exact h.elim
    · exact ⟨h.2.left.ended, .inr (Nat.lt_of_le_of_lt h.2.left.count fewer)⟩

theorem run_expression_of_eof (ends : d.current.kind = .eof) (n : Nat) (level : Level) :
    (Build.expression (n + 1) level).run d =
      .error .mk (d.advance.report d.current .expectedExpression) := by
  simp [Build.expression, operand, ends]

variable {σ : Type} [Carrier σ] {s : σ} {n : Nat}

theorem expression_tells {level : Level} (positive : 0 < level.rank) (ended : d.Ended)
    (begun : draft s = d) (enough : d.tokens.length ≤ n) :
    Tells d.advance.Onto d.advance.Onto ((Build.expression n level : Compiling σ Unit).run s)
      ((Build.expression d.tokens.length level : Watched Unit).run ⟨d, []⟩) := by
  subst begun
  refine Ends.imp (Pairing.expression_begins same_laws n _ 0 positive (w := ⟨draft s, []⟩)
    ⟨ended, enough⟩ ⟨ended, Nat.le_refl _⟩ ⟨rfl, ended⟩) ?_ ?_
  · rintro _ _ s' w' ⟨_, leads, _, now, _⟩
    exact ⟨now, leads.toOnto⟩
  · rintro s' w' ⟨_, onto, _, now, _⟩
    exact ⟨now, onto⟩

theorem blocks_together (n m : Nat) : together.Blocks n m
    (Build.expression n .assignment : Compiling σ Unit) (Build.expression m .assignment) :=
  together_nested.blocks together_laws fun _ c =>
    Pairing.expression_begins same_laws n m c (by decide)

theorem statement_tells (ended : d.Ended) (begun : draft s = d) (enough : d.tokens.length ≤ n) :
    Tells d.advance.Onto d.advance.Onto
      ((Build.statement (Build.expression n .assignment) n : Compiling σ Unit).run s)
      ((Build.statement (Build.expression d.tokens.length .assignment) d.tokens.length :
        Watched Unit).run ⟨d, []⟩) := by
  subst begun
  refine Ends.imp (Survey.statement_statements together_laws (fun _ c =>
    Pairing.expression_begins same_laws n _ c (by decide)) (blocks_together n _) (Nat.le_refl n)
    (Nat.le_refl _) (w := ⟨draft s, []⟩) ⟨ended, enough⟩ ⟨ended, Nat.le_refl _⟩ ⟨rfl, ended⟩) ?_ ?_
  · rintro _ _ s' w' ⟨_, onto, now, _⟩
    exact ⟨now, onto⟩
  · rintro s' w' ⟨_, onto, now, _⟩
    exact ⟨now, onto⟩

theorem declaration_tells (ended : d.Ended) (begun : draft s = d) (enough : d.tokens.length ≤ n) :
    Tells d.advance.Onto (fun _ => False)
      ((Build.declaration (Build.expression n .assignment)
        (Build.statement (Build.expression n .assignment) n) : Compiling σ Unit).run s)
      ((Build.declaration (Build.expression d.tokens.length .assignment)
        (Build.statement (Build.expression d.tokens.length .assignment) d.tokens.length) :
          Watched Unit).run ⟨d, []⟩) := by
  subst begun
  refine Ends.imp (together_nested.declarations together_laws n _ (w := ⟨draft s, []⟩)
    ⟨ended, enough⟩ ⟨ended, Nat.le_refl _⟩ ⟨rfl, ended⟩ (E := fun _ _ => False)) ?_
    fun _ _ lost => lost.2.2.elim
  rintro _ _ s' w' ⟨_, onto, now, _⟩
  exact ⟨now, onto⟩

theorem text_tells (ended : d.Ended) (begun : draft s = d) (enough : d.tokens.length ≤ n) :
    Tells (·.current.kind = .eof) (fun _ => False) ((Build.text n : Compiling σ Unit).run s)
      ((Watched.text d.tokens.length).run ⟨d, []⟩) := by
  subst begun
  refine Ends.imp (Survey.text_ends together_laws together_nested (w := ⟨draft s, []⟩)
    ⟨ended, enough⟩ ⟨ended, Nat.le_refl _⟩ ⟨rfl, ended⟩) ?_ fun _ _ => False.elim
  rintro _ _ s' w' ⟨d₁, _, ends, ⟨rfl, _⟩, now, now'⟩
  refine ⟨now.trans now'.symm, ?_⟩
  rw [now', Draft.advance_of_eof ends]
  exact ends

end

/-- What is parsed from some draft on ends, with fewer tokens left. A declaration even ends well. -/
structure GoesOn (d : Draft) : Prop where
  expression (level : Level) : 0 < level.rank →
    ∃ r, EndsIn d (expression · · level) (Build.expression · level) r ∧ Progresses d r
  statement : ∃ r, EndsIn d (fun stuck n => statement stuck (Bounded.expression stuck n .assignment) n)
    (fun n => Build.statement (Build.expression n .assignment) n) r ∧ Progresses d r
  declaration : d.current.kind ≠ .eof → ∃ d', d'.Ended ∧ d'.tokens.length < d.tokens.length ∧
    EndsIn d
      (fun stuck n => let expr := Bounded.expression stuck n .assignment
        declaration expr (Bounded.statement stuck expr n))
      (fun n => let expr := Build.expression n .assignment
        declaration expr (Build.statement expr n))
      (.ok () d')

theorem goesOn_of_ended {d : Draft} (ended : d.Ended) : GoesOn d := by
  have self : d.Left d.tokens.length := ⟨ended, Nat.le_refl _⟩
  obtain ⟨k, some⟩ := self.succ
  refine ⟨fun level positive => ?_, ?_, fun running => ?_⟩
  · have tells {σ : Type} [Carrier σ] {s : σ} {n : Nat} := expression_tells (s := s) (n := n) positive ended
    refine ⟨_, .of_tells (fun n => Build.expression n level) tells, ?_⟩
    refine .of_tells ended (tells (s := d) rfl (Nat.le_refl _)) fun ends => ?_
    rw [some]
    exact ⟨_, run_expression_of_eof ends k level⟩
  · have tells {σ : Type} [Carrier σ] {s : σ} {n : Nat} := statement_tells (s := s) (n := n) ended
    refine ⟨_, .of_tells (fun n => Build.statement (Build.expression n .assignment) n) tells, ?_⟩
    refine .of_tells ended (tells (s := d) rfl (Nat.le_refl _)) fun ends => ?_
    have plain : d.current.kind ∉ headwords := by simp [ends, headwords]
    rw [some, run_statement_plain plain, expressionStatement, become_eq, EStateM.run_bind, id,
      run_expression_of_eof ends]
    exact ⟨_, rfl⟩
  · have tells {σ : Type} [Carrier σ] {s : σ} {n : Nat} := declaration_tells (s := s) (n := n) ended
    obtain ⟨d', outcome, onto⟩ := (tells (s := d) rfl (Nat.le_refl _)).exists_ok
    refine ⟨d', onto.left.ended, Nat.lt_of_le_of_lt onto.left.count (advance_fewer ended running), ?_⟩
    rw [← outcome]
    exact .of_tells (fun n => Build.declaration (Build.expression n .assignment)
      (Build.statement (Build.expression n .assignment) n)) tells

theorem text_endsIn {d : Draft} (ended : d.Ended) :
    ∃ d', d'.current.kind = .eof ∧ EndsIn d text Build.text (.ok () d') := by
  have tells {σ : Type} [Carrier σ] {s : σ} {n : Nat} := text_tells (s := s) (n := n) ended
  obtain ⟨d', outcome, atEnd⟩ := (tells (s := d) rfl (Nat.le_refl _)).exists_ok
  refine ⟨d', atEnd, ?_⟩
  rw [← outcome]
  exact .of_tells (fun n => Build.text n) tells

end Bounded

/-- Compilation ends, for whatever tokens. An expression and a statement have read a token when they
end, unless they are given up at the end, and a declaration before the end always ends well and has
read a token. Where in a text they are does not matter, nor what would be done if a loop or a nesting
went on for longer than there are tokens, or if what is taken for an operator had no rule. -/
theorem compilation_ends (file : Text) (tokens : List Token) :
    (∀ d : Draft, d.Ended → Bounded.GoesOn d) ∧ (Draft.start file tokens).Ended ∧
    ∃ d, d.current.kind = .eof ∧
      Bounded.EndsIn (Draft.start file tokens) Bounded.text Build.text (.ok () d) ∧
      compileTokens file tokens = match d.faults with
        | [] => .ok ⟨file, (d.emit .finish).chunk, d.spans⟩
        | faults => .error faults.reverse := by
  have ended := Draft.start_ended file tokens
  obtain ⟨d, atEnd, only⟩ := Bounded.text_endsIn ended
  refine ⟨fun _ => Bounded.goesOn_of_ended, ended, d, atEnd, only, ?_⟩
  rw [compileTokens, Draft.finish_of_ok (only id _ (Nat.le_succ _)).2]
  rfl

end StackScript
