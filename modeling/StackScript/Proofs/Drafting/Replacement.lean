import StackScript.Proofs.Drafting.Likeness
import StackScript.Proofs.Syntax.Parts

/-! One expression in the place of another. Where an expression is written like another one and can be
read wherever the other is, it can take the other's place in any text: what is around stays what it
was, and the same program is written. -/

namespace StackScript

open Build Grammar

structure Expr.Resembles (e e' : Expr) : Prop where
  leading : e'.leading.kind = e.leading.kind
  writes : WritesAlike e.build e'.build

namespace Expr.Resembles

variable {e e' a a' b b' c c' : Expr}

theorem assign (t op : Token) (h : e.Resembles e') : (assign t op e).Resembles (.assign t op e') where
  leading := rfl
  writes := .bind .of_advance fun _ => .bind (.of_place t) fun p => .bind .of_advance fun _ =>
    h.writes.bind fun _ => .of_modify fun _ _ alike => alike.emitSet p t t

theorem compound (t op : Token) (h : e.Resembles e') :
    (compound t op e).Resembles (.compound t op e') where
  leading := rfl
  writes := .bind .of_advance fun _ => .bind (.of_place t) fun p => .bind .of_advance fun _ =>
    .bind (.of_modify fun _ _ alike => alike.emitGet p t t) fun _ => h.writes.bind fun _ =>
      .bind (.of_emitFor _ op op) fun _ => .of_modify fun _ _ alike => alike.emitSet p t t

theorem group (opening closing : Token) (h : e.Resembles e') :
    (group opening e closing).Resembles (.group opening e' closing) where
  leading := rfl
  writes := .bind .of_advance fun _ => h.writes.bind fun _ => .of_advance

theorem unary (op : Token) (h : e.Resembles e') : (unary op e).Resembles (.unary op e') where
  leading := rfl
  writes := .bind .of_advance fun _ => h.writes.bind fun _ =>
    .of_modify fun _ _ alike => alike.emitAt _ op op

theorem binary (op : Token) (left : a.Resembles a') (right : b.Resembles b') :
    (binary a op b).Resembles (.binary a' op b') where
  leading := left.leading
  writes := left.writes.bind fun _ => .bind .of_advance fun _ => right.writes.bind fun _ =>
    .of_emitFor _ op op

theorem and (op : Token) (left : a.Resembles a') (right : b.Resembles b') :
    (and a op b).Resembles (.and a' op b') where
  leading := left.leading
  writes := left.writes.bind fun _ => .bind .of_advance fun _ => right.writes.of_conjunction

theorem or (op : Token) (left : a.Resembles a') (right : b.Resembles b') :
    (or a op b).Resembles (.or a' op b') where
  leading := left.leading
  writes := left.writes.bind fun _ => .bind .of_advance fun _ => right.writes.of_disjunction

theorem conditional (mark colon : Token) (condition : c.Resembles c') (yes : a.Resembles a')
    (no : b.Resembles b') : (conditional c mark a colon b).Resembles (.conditional c' mark a' colon b') where
  leading := condition.leading
  writes := condition.writes.bind fun _ => .bind .of_advance fun _ => yes.writes.bind fun _ =>
    .bind .of_advance fun _ => no.writes.bind fun _ =>
      .of_modify fun _ _ alike => alike.emitAt _ mark mark

protected theorem refl (e : Expr) : e.Resembles e := by
  induction e with
  | literal t => exact ⟨rfl, .bind .of_advance fun _ => .of_literal t⟩
  | name t =>
    exact ⟨rfl, .bind .of_advance fun _ => .bind (.of_place t) fun p =>
      .of_modify fun _ _ alike => alike.emitGet p t t⟩
  | assign t op e ih => exact ih.assign t op
  | compound t op e ih => exact ih.compound t op
  | group opening e closing ih => exact ih.group opening closing
  | unary op e ih => exact ih.unary op
  | binary a op b iha ihb => exact iha.binary op ihb
  | and a op b iha ihb => exact iha.and op ihb
  | or a op b iha ihb => exact iha.or op ihb
  | conditional c mark a colon b ihc iha ihb => exact ihc.conditional mark colon iha ihb

end Expr.Resembles

/-- Statements that are written alike, and let the same be written before and behind them. -/
structure Stmt.Resembles (s s' : Stmt) : Prop where
  leading : s'.leading.kind = s.leading.kind
  dangling : s'.dangling = s.dangling
  greedy : s'.greedy = s.greedy
  writes : WritesAlike s.build s'.build

structure Rest.Resembles (r r' : Rest) : Prop where
  dangling : r'.dangling = r.dangling
  greedy : r'.greedy = r.greedy
  writes : ∀ exits, WritesAlike (r.build exits) (r'.build exits)

structure Decl.Resembles (d d' : Decl) : Prop where
  greedy : d'.greedy = d.greedy
  writes : WritesAlike d.body d'.body

structure ResembleAll (ds ds' : List Decl) : Prop where
  greedy : greedyAll ds' = greedyAll ds
  writes : WritesAlike (buildAll ds) (buildAll ds')

section

variable {e e' : Expr} {s s' : Stmt} {r r' : Rest} {d d' : Decl} {ds ds' : List Decl}

theorem Stmt.Resembles.print (word semicolon : Token) (h : e.Resembles e') :
    (print word e semicolon).Resembles (.print word e' semicolon) where
  leading := rfl
  dangling := rfl
  greedy := rfl
  writes := .bind .of_advance fun _ => h.writes.bind fun _ => .bind .of_advance fun _ => .of_emit _

theorem Stmt.Resembles.expression (semicolon : Token) (h : e.Resembles e') :
    (expression e semicolon).Resembles (.expression e' semicolon) where
  leading := h.leading
  dangling := rfl
  greedy := rfl
  writes := h.writes.bind fun _ => .bind .of_advance fun _ => .of_emit _

theorem Stmt.Resembles.branch (word : Token) (condition : e.Resembles e') (body : s.Resembles s')
    (rest : r.Resembles r') : (branch word e s r).Resembles (.branch word e' s' r') where
  leading := rfl
  dangling := rest.dangling
  greedy := by simp only [Stmt.greedy, body.leading, body.greedy, rest.greedy]
  writes := .bind .of_advance fun _ =>
    .bind (condition.writes.of_arm body.writes) fun exit => rest.writes [exit]

theorem Stmt.Resembles.loop (word : Token) (condition : e.Resembles e') (body : s.Resembles s') :
    (loop word e s).Resembles (.loop word e' s') where
  leading := rfl
  dangling := body.dangling
  greedy := by simp only [Stmt.greedy, body.leading, body.greedy]
  writes := .bind .of_advance fun _ => condition.writes.of_whileStatement body.writes

theorem Stmt.Resembles.block (opening closing : Token) (h : ResembleAll ds ds') :
    (block opening ds closing).Resembles (.block opening ds' closing) where
  leading := rfl
  dangling := rfl
  greedy := h.greedy
  writes := .bind .of_advance fun _ =>
    .bind (.of_modify fun _ _ alike => alike.rescope Scope.enter) fun _ => h.writes.bind fun _ =>
      .bind .of_advance fun _ => .of_modify fun _ _ alike => alike.leaveBlock

theorem Rest.Resembles.elif (word : Token) (condition : e.Resembles e') (body : s.Resembles s')
    (rest : r.Resembles r') : (elif word e s r).Resembles (.elif word e' s' r') where
  dangling := rest.dangling
  greedy := by simp only [Rest.greedy, body.leading, body.greedy, rest.greedy]
  writes exits := .bind .of_advance fun _ =>
    .bind (condition.writes.of_arm body.writes) fun exit => rest.writes (exit :: exits)

theorem Rest.Resembles.otherwise (word : Token) (body : s.Resembles s') :
    (otherwise word s).Resembles (.otherwise word s') where
  dangling := body.dangling
  greedy := body.greedy
  writes exits := .bind .of_advance fun _ => body.writes.bind fun _ => .of_patchAll exits.reverse

theorem Decl.Resembles.bindTo (word name equals semicolon : Token) (h : e.Resembles e') :
    (bindTo word name equals e semicolon).Resembles (.bindTo word name equals e' semicolon) where
  greedy := rfl
  writes := .bind .of_advance fun _ => .bind .of_advance fun _ => .of_declare name
    (.bind .of_advance fun _ => h.writes.bind fun _ => .of_advance)

theorem Decl.Resembles.statement (h : s.Resembles s') : (statement s).Resembles (.statement s') where
  greedy := h.greedy
  writes := h.writes

theorem ResembleAll.cons (first : d.Resembles d') (rest : ResembleAll ds ds') :
    ResembleAll (d :: ds) (d' :: ds') where
  greedy := by simp only [greedyAll, first.greedy, rest.greedy]
  writes := .bind (first.writes.of_marked d.span d'.span) fun _ => rest.writes

end

mutual

theorem Stmt.resembles_self : (s : Stmt) → s.Resembles s
  | .print word e semicolon => .print word semicolon (.refl e)
  | .expression e semicolon => .expression semicolon (.refl e)
  | .branch word c s r => .branch word (.refl c) s.resembles_self r.resembles_self
  | .loop word c s => .loop word (.refl c) s.resembles_self
  | .block opening ds closing => .block opening closing (resembleAll_self ds)

theorem Rest.resembles_self : (r : Rest) → r.Resembles r
  | .done => ⟨rfl, rfl, fun exits => .of_patchAll exits.reverse⟩
  | .elif word c s r => .elif word (.refl c) s.resembles_self r.resembles_self
  | .otherwise word s => .otherwise word s.resembles_self

theorem Decl.resembles_self : (d : Decl) → d.Resembles d
  | .bind _ name _ => ⟨rfl, .bind .of_advance fun _ => .bind .of_advance fun _ => .of_declare name
      (.bind (.of_emit _) fun _ => .of_advance)⟩
  | .bindTo word name equals e semicolon => .bindTo word name equals semicolon (.refl e)
  | .statement s => .statement s.resembles_self

theorem resembleAll_self : (ds : List Decl) → ResembleAll ds ds
  | [] => ⟨rfl, .of_pure ()⟩
  | d :: ds => .cons d.resembles_self (resembleAll_self ds)

end

/-- An expression that can take the place of another one: wherever the other is read it can be read
too, and it resembles the other. -/
def Expr.StandsFor (x e : Expr) : Prop :=
  ∀ ⦃l : Level⦄ ⦃ts : List Token⦄, Expression l ts e → Expression l x.tokens x ∧ e.Resembles x

/-- Whatever stands for the part, the text with it is of the same kind as the whole and resembles it. -/
def Part.Gives {τ : Type} (derives : List Token → τ → Prop) (resembles : τ → τ → Prop) (whole : τ)
    (p : Part) : Prop :=
  ∀ x : Expr, x.StandsFor p.expr → ∃ whole', derives (p.replaced x.tokens) whole' ∧ resembles whole whole'

/-- The parts of a piece, where the whole around the piece is of its kind with whatever the piece
becomes. -/
theorem Part.gives_within {τ υ : Type} {derives : List Token → τ → Prop} {resembles : τ → τ → Prop}
    {derives' : List Token → υ → Prop} {resembles' : υ → υ → Prop} {piece : τ} {whole : υ}
    {ps : List Part} (gives : ∀ p ∈ ps, p.Gives derives resembles piece) (before after : List Token)
    (wrap : τ → υ) (derived : ∀ {ts piece'}, derives ts piece' → resembles piece piece' →
      derives' (before ++ (ts ++ after)) (wrap piece'))
    (alike : ∀ {piece'}, resembles piece piece' → resembles' whole (wrap piece')) :
    ∀ p ∈ ps.map (·.within before after), p.Gives derives' resembles' whole := by
  refine forall_mem_map_within.2 fun p mem x stands => ?_
  obtain ⟨piece', becomes, same⟩ := gives p mem x stands
  rw [replaced_within]
  exact ⟨wrap piece', derived becomes same, alike same⟩

namespace Grammar

theorem Expression.self {l : Level} {ts : List Token} {e : Expr} (h : Expression l ts e) :
    Expression l e.tokens e := h.tokens ▸ h

theorem Statement.self {ts : List Token} {s : Stmt} (h : Statement ts s) : Statement s.tokens s :=
  h.tokens ▸ h

theorem Continuation.self {ts : List Token} {r : Rest} (h : Continuation ts r) :
    Continuation r.tokens r := h.tokens ▸ h

theorem Declaration.self {ts : List Token} {d : Decl} (h : Declaration ts d) :
    Declaration d.tokens d := h.tokens ▸ h

theorem Program.self {ts : List Token} {ds : List Decl} (h : Program ts ds) :
    Program (tokensAll ds) ds := h.tokens ▸ h

theorem Expression.gives_of_inner {l : Level} {ts : List Token} {e : Expr} (h : Expression l ts e)
    (inner : ∀ p ∈ e.inner, p.Gives (Expression l) Expr.Resembles e) :
    ∀ p ∈ e.parts, p.Gives (Expression l) Expr.Resembles e := by
  refine List.forall_mem_cons.2 ⟨fun x stands => ?_, inner⟩
  obtain ⟨fits, alike⟩ := stands h
  exact ⟨x, by simpa [Part.replaced] using fits, alike⟩

theorem Expression.gives {l : Level} {ts : List Token} {e : Expr} (h : Expression l ts e) :
    ∀ p ∈ e.parts, p.Gives (Expression l) Expr.Resembles e := by
  induction h with
  | assign target op h ih =>
    refine (Expression.assign target op h).gives_of_inner ?_
    exact Part.gives_within ih _ [] (.assign _ _) (fun h _ => by simpa using .assign target op h)
      (.assign _ _)
  | compound target op h ih =>
    refine (Expression.compound target op h).gives_of_inner ?_
    exact Part.gives_within ih _ [] (.compound _ _) (fun h _ => by simpa using .compound target op h)
      (.compound _ _)
  | tighter loose h ih =>
    intro p mem x stands
    obtain ⟨e', derived, alike⟩ := ih p mem x stands
    exact ⟨e', .tighter loose derived, alike⟩
  | conditional hc mark ha colon hb ihc iha ihb =>
    refine (Expression.conditional hc mark ha colon hb).gives_of_inner ?_
    refine List.forall_mem_append.2 ⟨?_, List.forall_mem_append.2 ⟨?_, ?_⟩⟩
    · exact Part.gives_within ihc [] _ (.conditional · _ _ _ _)
        (fun h _ => .conditional h mark ha.self colon hb.self)
        (.conditional _ _ · (.refl _) (.refl _))
    · exact Part.gives_within iha _ _ (.conditional _ _ · _ _)
        (fun h _ => by simpa using .conditional hc.self mark h colon hb.self)
        (.conditional _ _ (.refl _) · (.refl _))
    · exact Part.gives_within ihb _ [] (.conditional _ _ _ _ ·)
        (fun h _ => by simpa using .conditional hc.self mark ha.self colon h)
        (.conditional _ _ (.refl _) (.refl _))
  | or ha op hb iha ihb =>
    refine (Expression.or ha op hb).gives_of_inner (List.forall_mem_append.2 ⟨?_, ?_⟩)
    · exact Part.gives_within iha [] _ (.or · _ _) (fun h _ => .or h op hb.self)
        (.or _ · (.refl _))
    · exact Part.gives_within ihb _ [] (.or _ _) (fun h _ => by simpa using .or ha.self op h)
        (.or _ (.refl _))
  | and ha op hb iha ihb =>
    refine (Expression.and ha op hb).gives_of_inner (List.forall_mem_append.2 ⟨?_, ?_⟩)
    · exact Part.gives_within iha [] _ (.and · _ _) (fun h _ => .and h op hb.self)
        (.and _ · (.refl _))
    · exact Part.gives_within ihb _ [] (.and _ _) (fun h _ => by simpa using .and ha.self op h)
        (.and _ (.refl _))
  | binary ha op hb iha ihb =>
    refine (Expression.binary ha op hb).gives_of_inner (List.forall_mem_append.2 ⟨?_, ?_⟩)
    · exact Part.gives_within iha [] _ (.binary · _ _) (fun h _ => .binary h op hb.self)
        (.binary _ · (.refl _))
    · exact Part.gives_within ihb _ [] (.binary _ _) (fun h _ => by simpa using .binary ha.self op h)
        (.binary _ (.refl _))
  | unary op h ih =>
    refine (Expression.unary op h).gives_of_inner ?_
    exact Part.gives_within ih _ [] (.unary _) (fun h _ => by simpa using .unary op h) (.unary _)
  | literal kind => exact (Expression.literal kind).gives_of_inner (by simp [Expr.inner])
  | name kind => exact (Expression.name kind).gives_of_inner (by simp [Expr.inner])
  | group opening h closing ih =>
    refine (Expression.group opening h closing).gives_of_inner ?_
    exact Part.gives_within ih _ _ (.group _ · _) (fun h _ => .group opening h closing) (.group _ _)

/-- The arms of a branch: the condition, the body and what follows. Only behind a body that takes no
further arm does one follow. -/
theorem gives_of_arm {word : Token} {c : Expr} {s : Stmt} {r : Rest} {τ : Type}
    {derives : List Token → τ → Prop} {resembles : τ → τ → Prop} {whole : τ}
    (wrap : Expr → Stmt → Rest → τ)
    (derived : ∀ {ts us vs c s r}, Expression .assignment ts c → Statement us s → Continuation vs r →
      (vs ≠ [] → s.dangling = false) → derives (word :: (ts ++ (us ++ vs))) (wrap c s r))
    (alike : ∀ {c' s' r'}, c.Resembles c' → s.Resembles s' → r.Resembles r' →
      resembles whole (wrap c' s' r'))
    (hc : Expression .assignment c.tokens c) (hs : Statement s.tokens s)
    (hr : Continuation r.tokens r) (dangling : r.tokens ≠ [] → s.dangling = false)
    (body : ∀ p ∈ s.parts, p.Gives Statement Stmt.Resembles s)
    (rest : ∀ p ∈ r.parts, p.Gives Continuation Rest.Resembles r) :
    ∀ p ∈ c.parts.map (·.within [word] (s.tokens ++ r.tokens)) ++
      (s.parts.map (·.within (word :: c.tokens) r.tokens) ++
        r.parts.map (·.within (word :: (c.tokens ++ s.tokens)) [])), p.Gives derives resembles whole := by
  refine List.forall_mem_append.2 ⟨?_, List.forall_mem_append.2 ⟨?_, fun p mem => ?_⟩⟩
  · exact Part.gives_within hc.gives [word] _ (wrap · s r)
      (fun h _ => by simpa using derived h hs hr dangling)
      (alike · s.resembles_self r.resembles_self)
  · exact Part.gives_within body _ r.tokens (wrap c · r)
      (fun h same => by
        simpa using derived hc h hr (by rw [same.dangling]; exact dangling))
      (alike (.refl c) · r.resembles_self)
  · -- Something stands in what follows, so there is a further arm already.
    have follows : r.tokens ≠ [] := by
      cases r with
      | done => exact absurd mem List.not_mem_nil
      | elif _ _ _ _ => exact List.cons_ne_nil _ _
      | otherwise _ _ => exact List.cons_ne_nil _ _
    exact Part.gives_within rest _ [] (wrap c s ·)
      (fun h _ => by simpa using derived hc hs h fun _ => dangling follows)
      (alike (.refl c) s.resembles_self) p mem

mutual

theorem Statement.gives {ts : List Token} {s : Stmt} :
    Statement ts s → ∀ p ∈ s.parts, p.Gives Statement Stmt.Resembles s
  | .print word e semicolon =>
    Part.gives_within e.gives _ _ (.print _ · _) (fun h _ => .print word h semicolon) (.print _ _)
  | .expression e semicolon =>
    Part.gives_within e.gives [] _ (.expression · _) (fun h _ => .expression h semicolon)
      (.expression _)
  | .branch word c s r dangling =>
    gives_of_arm (.branch _) (.branch word) (.branch _) c.self s.self r.self
      (by rw [← r.tokens]; exact dangling) s.gives r.gives
  | .loop word c s => List.forall_mem_append.2
    ⟨Part.gives_within c.gives _ _ (.loop _ · _) (fun h _ => by simpa using .loop word h s.self)
      (.loop _ · (Stmt.resembles_self _)),
    Part.gives_within s.gives _ [] (.loop _ _) (fun h _ => by simpa using .loop word c.self h)
      (.loop _ (.refl _))⟩
  | .block opening ds closing =>
    Part.gives_within ds.gives _ _ (.block _ · _) (fun h _ => .block opening h closing) (.block _ _)

theorem Continuation.gives {ts : List Token} {r : Rest} :
    Continuation ts r → ∀ p ∈ r.parts, p.Gives Continuation Rest.Resembles r
  | .done => fun _ mem => absurd mem List.not_mem_nil
  | .elif word c s r dangling =>
    gives_of_arm (.elif _) (.elif word) (.elif _) c.self s.self r.self
      (by rw [← r.tokens]; exact dangling) s.gives r.gives
  | .otherwise word s =>
    Part.gives_within s.gives _ [] (.otherwise _) (fun h _ => by simpa using .otherwise word h)
      (.otherwise _)

theorem Declaration.gives {ts : List Token} {d : Decl} :
    Declaration ts d → ∀ p ∈ d.parts, p.Gives Declaration Decl.Resembles d
  | .bind _ _ _ => fun _ mem => absurd mem List.not_mem_nil
  | .bindTo word name equals e semicolon =>
    Part.gives_within e.gives _ _ (.bindTo _ _ _ · _)
      (fun h _ => .bindTo word name equals h semicolon) (.bindTo _ _ _ _)
  | .statement s => fun p mem x stands => by
    obtain ⟨s', derived, alike⟩ := s.gives p mem x stands
    exact ⟨.statement s', .statement derived, .statement alike⟩

theorem Program.gives {ts : List Token} {ds : List Decl} :
    Program ts ds → ∀ p ∈ partsAll ds, p.Gives Program ResembleAll ds
  | .nil => fun _ mem => absurd mem List.not_mem_nil
  | .cons d ds => List.forall_mem_append.2
    ⟨Part.gives_within d.gives [] _ (· :: _)
      (fun h _ => by simpa using .cons h ds.self)
      (.cons · (resembleAll_self _)),
    Part.gives_within ds.gives _ [] (_ :: ·) (fun h _ => by simpa using .cons d.self h)
      (.cons (Decl.resembles_self _))⟩

end

end Grammar

end StackScript
