import StackScript.Proofs.Drafting.Replacement
import StackScript.Proofs.Layout

/-! A compound assignment is short for an assignment. Both look the variable up, read it, compute and
assign it, in this order; so the assignment, with its value in parentheses, can take the place of the
compound assignment in any text. -/

namespace StackScript

open Build Grammar

/-- Where a variable of the name is found, without a further constant. -/
def Draft.Finds (d : Draft) (name : Text) : Place → Prop
  | .slot n => ∃ l, d.scope.resolve? name = some (n, l) ∧ l.ready
  | .global i => d.scope.resolve? name = none ∧ d.names[name]? = some i

namespace Draft.Finds

variable {d d' e : Draft} {p : Place} {t : Token}

theorem congr {name : Text} (h : d.Finds name p) (same : d.Matches e) : e.Finds name p := by
  cases p with
  | slot n => rwa [Finds, ← same.scope]
  | global i => rwa [Finds, ← same.scope, ← same.names]

theorem run_place (h : d.Finds t.lexeme p) : (place t).run d = .ok p d := by
  rw [Build.run_place]
  cases p with
  | slot n =>
    obtain ⟨l, found, ready⟩ := h
    simp only [found, ready, if_true]
  | global i =>
    obtain ⟨none, found⟩ := h
    simp only [none, run_nameConstant, found]

theorem of_place (run : (place t).run d = .ok p d') : d'.Finds t.lexeme p := by
  rw [Build.run_place] at run
  cases resolved : d.scope.resolve? t.lexeme with
  | some found =>
    obtain ⟨slot, l⟩ := found
    simp only [resolved] at run
    split at run
    · next ready =>
      cases run
      exact ⟨l, resolved, ready⟩
    · cases run
  | none =>
    simp only [resolved, run_nameConstant] at run
    cases known : d.names[t.lexeme]? with
    | some i =>
      simp only [known] at run
      cases run
      exact ⟨resolved, known⟩
    | none =>
      simp only [known] at run
      by_cases room : d.chunk.hasRoom
      · simp only [room, if_true] at run
        cases run
        exact ⟨resolved, Std.TreeMap.getElem?_insert_self⟩
      · simp only [room] at run
        cases run

end Draft.Finds

theorem WritesAlike.bind_place (t : Token) {f g : Place → Build Unit}
    (h : ∀ {p d e}, d.Matches e → e.Finds t.lexeme p → WrittenAlike ((f p).run d) ((g p).run e)) :
    WritesAlike (place t >>= f) (place t >>= g) := by
  intro d e alike
  have ends := WritesAlike.of_place t alike
  rw [EStateM.run_bind, EStateM.run_bind]
  cases left : (place t).run d with
  | ok p d' =>
    cases right : (place t).run e with
    | ok q e' =>
      rw [left, right] at ends
      obtain ⟨rfl, alike'⟩ := ends
      exact h alike' (.of_place right)
    | error _ _ =>
      rw [left, right] at ends
      exact ends.elim
  | error _ _ =>
    cases right : (place t).run e with
    | ok q e' =>
      rw [left, right] at ends
      exact ends.elim
    | error _ _ => exact trivial

theorem WritesAlike.advance_right {x y : Build Unit} (h : WritesAlike x y) :
    WritesAlike x (do advance; y) := fun _ _ alike => h alike.advance_right

/-- The operator that a compound assignment is short for. -/
def TokenKind.spelledOut : TokenKind → TokenKind
  | .plusEqual => .plus
  | .minusEqual => .minus
  | .starEqual => .star
  | .slashEqual => .slash
  | k => k

theorem Opcode.ofBinary_spelledOut {k : TokenKind} (h : k ∈ compounds) :
    Opcode.ofBinary? k.spelledOut = Opcode.ofCompound? k := by
  simp only [compounds, List.mem_cons, List.not_mem_nil, or_false] at h
  rcases h with rfl | rfl | rfl | rfl <;> rfl

theorem Grammar.spelledOut_mem_operators {k : TokenKind} (h : k ∈ compounds) :
    k.spelledOut ∈ operators .term ∨ k.spelledOut ∈ operators .factor := by
  simp only [compounds, List.mem_cons, List.not_mem_nil, or_false] at h
  rcases h with rfl | rfl | rfl | rfl <;> decide

theorem Level.eq_none_of_tighter {l : Level} (h : l.tighter = .assignment) : l = .none := by
  revert h
  cases l <;> decide

theorem Grammar.Expression.compound_cases {l : Level} {ts : List Token} {target op : Token}
    {value : Expr} (h : Expression l ts (.compound target op value)) :
    l = .assignment ∧ target.kind = .identifier ∧ op.kind ∈ compounds ∧
      Expression .assignment value.tokens value := by
  generalize whole : Expr.compound target op value = e at h
  induction h with
  | compound kind kind' h _ =>
    cases whole
    exact ⟨rfl, kind, kind', h.self⟩
  | tighter loose _ ih =>
    obtain ⟨level, _⟩ := ih whole
    exact absurd (Level.eq_none_of_tighter level) loose
  | _ => cases whole

namespace Expr

variable {target op equals again operator opening closing : Token} {value : Expr}

/-- A compound assignment takes the steps of an assignment whose value begins with the variable. The
name is looked up twice there, the second time to no effect. -/
theorem compound_resembles (same : again.lexeme = target.lexeme)
    (arithmetic : Opcode.ofBinary? operator.kind = Opcode.ofCompound? op.kind) :
    (compound target op value).Resembles
      (.assign target equals (.binary (.name again) operator (.group opening value closing))) := by
  refine ⟨rfl, ?_⟩
  simp only [build, bind_assoc, arithmetic]
  refine .bind .of_advance fun _ => .bind_place target fun {p d e} alike found => ?_
  have known : e.advance.advance.Finds again.lexeme p :=
    same ▸ found.congr (Draft.Matches.of_advance _).symm.advance_right
  have looked {f : Place → Build Unit} :
      (do advance; advance; let q ← place again; f q : Build Unit).run e = (f p).run e.advance.advance := by
    simp only [EStateM.run_bind, run_advance, known.run_place]
  rw [looked]
  have rest := WritesAlike.bind (.of_modify fun _ _ alike => alike.emitGet p target again) fun _ =>
    .advance_right (.advance_right (.bind (Resembles.refl value).writes fun _ => .advance_right
      (.bind (.of_emitFor (Opcode.ofCompound? op.kind) op operator) fun _ =>
        .of_modify fun _ _ alike => alike.emitSet p target target)))
  exact rest alike.advance.advance_right

/-- The assignment that a compound assignment is short for. The parentheses keep its value together. -/
theorem spelledOut_standsFor_compound (equal : equals.kind = .assign) (same : again.word = target.word)
    (arithmetic : operator.kind = op.kind.spelledOut) (opens : opening.kind = .leftParen)
    (closes : closing.kind = .rightParen) :
    (assign target equals (.binary (.name again) operator (.group opening value closing))).StandsFor
      (.compound target op value) := by
  intro l ts h
  obtain ⟨rfl, kind, kind', derived⟩ := h.compound_cases
  have name := Expression.name ((Token.kind_of_word same).trans kind)
  have grouped := Expression.group opens derived closes
  have arithmetic' : Opcode.ofBinary? operator.kind = Opcode.ofCompound? op.kind := by
    rw [arithmetic, Opcode.ofBinary_spelledOut kind']
  refine ⟨.assign kind equal ?_, compound_resembles (congrArg Prod.snd same) arithmetic'⟩
  rcases spelledOut_mem_operators kind' with mem | mem
  all_goals
    rw [← arithmetic] at mem
    exact (Expression.binary (name.loosen (by decide) (by decide)) mem
      (grouped.loosen (by decide) (by decide))).loosen (by decide) (by decide)

end Expr

theorem Draft.start_matches (file file' : Text) (ts us : List Token) :
    (Draft.start file ts).Matches (Draft.start file' us) := by
  obtain ⟨chunk, _, scope, names⟩ := start_blank file ts
  obtain ⟨chunk', _, scope', names'⟩ := start_blank file' us
  exact ⟨scope.trans scope'.symm, names.trans names'.symm, by rw [chunk, chunk'], by rw [chunk, chunk']⟩

/-- A tree that resembles the tree of a program is compiled to the same code and constants. -/
theorem ResembleAll.compiles {file : Text} {tokens tokens' : List Token} {ds ds' : List Decl}
    {p : Program} (h : ResembleAll ds ds') (derived : Derives tokens ds) (derived' : Derives tokens' ds')
    (compiled : compileTokens file tokens = .ok p) :
    ∃ p', compileTokens file tokens' = .ok p' ∧ p'.chunk.code = p.chunk.code ∧
      p'.chunk.constants = p.chunk.constants := by
  have along := derived.compiles_along file
  have along' := derived'.compiles_along file
  have ends := h.writes (Draft.start_matches file file tokens tokens')
  cases run : (buildAll ds).run (Draft.start file tokens) with
  | error e d =>
    rw [run] at along
    obtain ⟨_, error⟩ := along
    rw [compiled] at error
    cases error
  | ok a d =>
    cases run' : (buildAll ds').run (Draft.start file tokens') with
    | error e d' =>
      rw [run, run'] at ends
      exact ends.elim
    | ok a' d' =>
      rw [run, run'] at ends
      rw [run, compiled] at along
      rw [run'] at along'
      have finished := ends.2.advance.write Opcode.finish.toByte d.advance.line d'.advance.line
      obtain rfl := Except.ok.inj along
      exact ⟨_, along', finished.code.symm, finished.constants.symm⟩

theorem takeWhile_dropWhile_eof (tokens : List Token) :
    (tokens.dropWhile (·.kind ≠ .eof)).takeWhile (·.kind ≠ .eof) = [] := by
  have ends := List.head?_dropWhile_not (·.kind ≠ .eof) tokens
  cases rest : tokens.dropWhile (·.kind ≠ .eof) with
  | nil => rfl
  | cons t ts =>
    rw [rest] at ends
    exact List.takeWhile_cons_of_neg (by simpa using ends)

/-- The list derives a tree that resembles its tree when something stands for a part. -/
theorem Grammar.Derives.replaced {tokens : List Token} {ds : List Decl} {part : Part} {x : Expr}
    (h : Derives tokens ds) (mem : part ∈ partsAll ds) (stands : x.StandsFor part.expr) :
    ∃ ds', Derives (part.replaced x.tokens ++ tokens.dropWhile (·.kind ≠ .eof)) ds' ∧
      ResembleAll ds ds' := by
  obtain ⟨ds', derived, alike⟩ := h.1.gives part mem x stands
  refine ⟨ds', ⟨?_, alike.greedy.trans h.2⟩, alike⟩
  rw [List.takeWhile_append_of_pos (by simpa [Running] using derived.running),
    takeWhile_dropWhile_eof, List.append_nil]
  exact derived

/-- A compound assignment is short for an assignment. In a list that is compiled, whatever tree it is
read as and wherever in it a compound assignment stands, the tokens of that may be replaced by those
of the assignment it is short for: the list, whatever places its tokens have and whatever file it is
from, is compiled to the same code and the same constants. -/
theorem compound_assignment_is_short_for_assignment {file : Text} {tokens : List Token} {p : Program}
    (compiled : compileTokens file tokens = .ok p) :
    (∃ ds, Derives tokens ds) ∧
    ∀ ds, Derives tokens ds → ∀ (before after : List Token) (target op : Token) (value : Expr),
      ⟨before, .compound target op value, after⟩ ∈ partsAll ds →
      let rest := tokens.dropWhile (·.kind ≠ .eof)
      tokens = before ++ ([target, op] ++ value.tokens) ++ after ++ rest ∧
      ∀ equals again operator opening closing : Token, equals.kind = .assign →
        again.word = target.word → operator.kind = op.kind.spelledOut → opening.kind = .leftParen →
        closing.kind = .rightParen →
        ∀ (file' : Text) (tokens' : List Token), tokens'.map Token.word =
          (before ++ ([target, equals, again, operator, opening] ++ value.tokens ++ [closing]) ++
            after ++ rest).map Token.word →
          ∃ p', compileTokens file' tokens' = .ok p' ∧ p'.chunk.code = p.chunk.code ∧
            p'.chunk.constants = p.chunk.constants := by
  refine ⟨exists_derives compiled, fun ds derived before after target op value mem => ⟨?_, ?_⟩⟩
  · have text := derived.1.tokens.trans (tokens_partsAll ds _ mem).symm
    calc tokens
      _ = tokens.takeWhile (·.kind ≠ .eof) ++ tokens.dropWhile (·.kind ≠ .eof) :=
        List.takeWhile_append_dropWhile.symm
      _ = before ++ ([target, op] ++ value.tokens) ++ after ++ tokens.dropWhile (·.kind ≠ .eof) := by
        rw [text]
        simp [Part.tokens, Part.replaced, Expr.tokens]
  · intro equals again operator opening closing equal same arithmetic opens closes file' tokens' words
    have stands := @Expr.spelledOut_standsFor_compound _ _ _ _ _ _ _ value equal same arithmetic opens
      closes
    obtain ⟨ds', derived', alike⟩ := derived.replaced mem stands
    obtain ⟨q, compiled', code, constants⟩ := alike.compiles derived derived' compiled
    have text : (⟨before, .compound target op value, after⟩ : Part).replaced (Expr.tokens (.assign target
        equals (.binary (.name again) operator (.group opening value closing)))) =
        before ++ ([target, equals, again, operator, opening] ++ value.tokens ++ [closing]) ++ after := by
      simp [Part.replaced, Expr.tokens]
    rw [text] at compiled'
    have layout := compileTokens_alike file file' words.symm
    rw [compiled'] at layout
    cases moved : compileTokens file' tokens' with
    | ok p' =>
      rw [moved] at layout
      exact ⟨p', rfl, layout.code.symm.trans code, layout.constants.symm.trans constants⟩
    | error faults =>
      rw [moved] at layout
      exact layout.elim

theorem compound_assignment_is_short_for_assignment_grouped :
    let word (kind : TokenKind) (lexeme : String) : Token := ⟨kind, utf8 lexeme, {}⟩
    let x := word .identifier "x"
    let two := word .int "2"
    let three := word .int "3"
    let opening := word .leftParen "("
    let closing := word .rightParen ")"
    let ending := [closing, word .semicolon ";"]
    let short := [word .kwPrint "print", opening, x, word .slashEqual "/=", two, word .plus "+", three] ++
      ending
    let long := [word .kwPrint "print", opening, x, word .assign "=", x, word .slash "/", opening, two,
      word .plus "+", three, closing] ++ ending
    ∃ p p', compileTokens (utf8 "a") short = .ok p ∧ compileTokens (utf8 "b") long = .ok p' ∧
      p'.chunk.code = p.chunk.code ∧ p'.chunk.constants = p.chunk.constants := by
  intro word x two three opening closing ending short long
  have compiles : (compileTokens (utf8 "a") short).isOk := by decide +kernel
  have shorter : ∃ p, compileTokens (utf8 "a") short = .ok p := by
    cases compiled : compileTokens (utf8 "a") short with
    | ok p => exact ⟨p, rfl⟩
    | error faults => rw [compiled] at compiles; cases compiles
  obtain ⟨p, compiled⟩ := shorter
  have literal (t : Token) (kind : t.kind = .int) : Expression .unary [t] (.literal t) :=
    .literal (by rw [kind]; decide)
  have sum : Expression .assignment [two, word .plus "+", three]
      (.binary (.literal two) (word .plus "+") (.literal three)) :=
    (Expression.binary ((literal two rfl).loosen (by decide) (by decide)) (by decide)
      ((literal three rfl).loosen (by decide) (by decide)) : Expression .term _ _).loosen
        (by decide) (by decide)
  have grouped := Expression.group (show opening.kind = .leftParen from rfl)
    (.compound (show x.kind = .identifier from rfl) (show (word .slashEqual "/=").kind ∈ compounds by decide)
      sum) (show closing.kind = .rightParen from rfl)
  have printed := Statement.print (show (word .kwPrint "print").kind = .kwPrint from rfl)
    (grouped.loosen (by decide) (by decide)) (show (word .semicolon ";").kind = .semicolon from rfl)
  have derived : Derives short _ := ⟨.cons (.statement printed) .nil, rfl⟩
  obtain ⟨p', compiled', same⟩ := ((compound_assignment_is_short_for_assignment compiled).2 _ derived
    [word .kwPrint "print", opening] ending x (word .slashEqual "/=")
    (.binary (.literal two) (word .plus "+") (.literal three)) (by
      simp [partsAll, Decl.parts, Stmt.parts, Expr.parts, Expr.inner, Part.within, tokensAll, ending])).2
    (word .assign "=") x (word .slash "/") opening closing rfl rfl rfl rfl rfl (utf8 "b") long
    (by decide)
  exact ⟨p, p', compiled, compiled', same⟩

end StackScript
