import StackScript.Proofs.Syntax.Grammar

/-! The parts of a tree and where they stand. A tree holds its tokens in their order, so each
expression in it has the tokens before it and the tokens behind it. -/

namespace StackScript

namespace Expr

def tokens : Expr → List Token
  | .literal t | .name t => [t]
  | .assign t op e | .compound t op e => t :: op :: e.tokens
  | .group opening e closing => opening :: (e.tokens ++ [closing])
  | .unary op e => op :: e.tokens
  | .binary a op b | .and a op b | .or a op b => a.tokens ++ op :: b.tokens
  | .conditional c mark a colon b => c.tokens ++ mark :: (a.tokens ++ colon :: b.tokens)

end Expr

mutual

def Stmt.tokens : Stmt → List Token
  | .print word e semicolon => word :: (e.tokens ++ [semicolon])
  | .expression e semicolon => e.tokens ++ [semicolon]
  | .branch word c s rest => word :: (c.tokens ++ (s.tokens ++ rest.tokens))
  | .loop word c s => word :: (c.tokens ++ s.tokens)
  | .block opening ds closing => opening :: (tokensAll ds ++ [closing])

def Rest.tokens : Rest → List Token
  | .done => []
  | .elif word c s rest => word :: (c.tokens ++ (s.tokens ++ rest.tokens))
  | .otherwise word s => word :: s.tokens

def Decl.tokens : Decl → List Token
  | .bind word name semicolon => [word, name, semicolon]
  | .bindTo word name equals e semicolon => word :: name :: equals :: (e.tokens ++ [semicolon])
  | .statement s => s.tokens

def tokensAll : List Decl → List Token
  | [] => []
  | d :: ds => d.tokens ++ tokensAll ds

end

structure Part where
  before : List Token
  expr : Expr
  after : List Token

namespace Part

def within (before after : List Token) (p : Part) : Part :=
  ⟨before ++ p.before, p.expr, p.after ++ after⟩

def replaced (p : Part) (ts : List Token) : List Token := p.before ++ (ts ++ p.after)

theorem replaced_within (before after ts : List Token) (p : Part) :
    (p.within before after).replaced ts = before ++ (p.replaced ts ++ after) := by
  simp [within, replaced]

def tokens (p : Part) : List Token := p.replaced p.expr.tokens

theorem tokens_within (before after : List Token) (p : Part) :
    (p.within before after).tokens = before ++ (p.tokens ++ after) := replaced_within before after _ p

end Part

namespace Expr

/-- The expressions inside another one, at any depth. -/
def inner : Expr → List Part
  | .literal _ | .name _ => []
  | .assign t op e | .compound t op e => (⟨[], e, []⟩ :: e.inner).map (·.within [t, op] [])
  | .group opening e closing => (⟨[], e, []⟩ :: e.inner).map (·.within [opening] [closing])
  | .unary op e => (⟨[], e, []⟩ :: e.inner).map (·.within [op] [])
  | .binary a op b | .and a op b | .or a op b =>
    (⟨[], a, []⟩ :: a.inner).map (·.within [] (op :: b.tokens)) ++
      (⟨[], b, []⟩ :: b.inner).map (·.within (a.tokens ++ [op]) [])
  | .conditional c mark a colon b =>
    (⟨[], c, []⟩ :: c.inner).map (·.within [] (mark :: (a.tokens ++ colon :: b.tokens))) ++
      ((⟨[], a, []⟩ :: a.inner).map (·.within (c.tokens ++ [mark]) (colon :: b.tokens)) ++
        (⟨[], b, []⟩ :: b.inner).map (·.within (c.tokens ++ mark :: (a.tokens ++ [colon])) []))

def parts (e : Expr) : List Part := ⟨[], e, []⟩ :: e.inner

end Expr

mutual

def Stmt.parts : Stmt → List Part
  | .print word e semicolon => e.parts.map (·.within [word] [semicolon])
  | .expression e semicolon => e.parts.map (·.within [] [semicolon])
  | .branch word c s rest =>
    c.parts.map (·.within [word] (s.tokens ++ rest.tokens)) ++
      (s.parts.map (·.within (word :: c.tokens) rest.tokens) ++
        rest.parts.map (·.within (word :: (c.tokens ++ s.tokens)) []))
  | .loop word c s =>
    c.parts.map (·.within [word] s.tokens) ++ s.parts.map (·.within (word :: c.tokens) [])
  | .block opening ds closing => (partsAll ds).map (·.within [opening] [closing])

def Rest.parts : Rest → List Part
  | .done => []
  | .elif word c s rest =>
    c.parts.map (·.within [word] (s.tokens ++ rest.tokens)) ++
      (s.parts.map (·.within (word :: c.tokens) rest.tokens) ++
        rest.parts.map (·.within (word :: (c.tokens ++ s.tokens)) []))
  | .otherwise word s => s.parts.map (·.within [word] [])

def Decl.parts : Decl → List Part
  | .bind _ _ _ => []
  | .bindTo word name equals e semicolon =>
    e.parts.map (·.within [word, name, equals] [semicolon])
  | .statement s => s.parts

def partsAll : List Decl → List Part
  | [] => []
  | d :: ds =>
    d.parts.map (·.within [] (tokensAll ds)) ++ (partsAll ds).map (·.within d.tokens [])

end

/-- The parts of a piece of something larger, by what holds of the parts of the piece. -/
theorem forall_mem_map_within {before after : List Token} {ps : List Part} {P : Part → Prop} :
    (∀ p ∈ ps.map (·.within before after), P p) ↔ ∀ p ∈ ps, P (p.within before after) :=
  List.forall_mem_map

theorem Part.tokens_of_piece {ps : List Part} {ts : List Token} (all : ∀ p ∈ ps, p.tokens = ts)
    (before after : List Token) :
    ∀ p ∈ ps.map (·.within before after), p.tokens = before ++ (ts ++ after) :=
  forall_mem_map_within.2 fun p mem => by rw [tokens_within, all p mem]

theorem Part.tokens_of_arm (word : Token) {ps qs rs : List Part} {ts us vs : List Token}
    (condition : ∀ p ∈ ps, p.tokens = ts) (body : ∀ p ∈ qs, p.tokens = us)
    (rest : ∀ p ∈ rs, p.tokens = vs) :
    ∀ p ∈ ps.map (·.within [word] (us ++ vs)) ++ (qs.map (·.within (word :: ts) vs) ++
      rs.map (·.within (word :: (ts ++ us)) [])), p.tokens = word :: (ts ++ (us ++ vs)) := by
  have first := tokens_of_piece condition [word] (us ++ vs)
  have second := tokens_of_piece body (word :: ts) vs
  have third := tokens_of_piece rest (word :: (ts ++ us)) []
  refine List.forall_mem_append.2 ⟨first, List.forall_mem_append.2
    ⟨fun p mem => (second p mem).trans ?_, fun p mem => (third p mem).trans ?_⟩⟩
  · simp
  · simp

theorem Expr.tokens_parts (e : Expr) : ∀ p ∈ e.parts, p.tokens = e.tokens := by
  have whole (e : Expr) : (⟨[], e, []⟩ : Part).tokens = e.tokens := by simp [Part.tokens, Part.replaced]
  refine List.forall_mem_cons.2 ⟨whole e, ?_⟩
  induction e with
  | literal t | name t => exact fun p mem => absurd mem List.not_mem_nil
  | assign t op e ih | compound t op e ih =>
    have all := Part.tokens_of_piece (List.forall_mem_cons.2 ⟨whole e, ih⟩) [t, op] []
    simpa [tokens, inner] using all
  | group opening e closing ih =>
    have all := Part.tokens_of_piece (List.forall_mem_cons.2 ⟨whole e, ih⟩) [opening] [closing]
    simpa [tokens, inner] using all
  | unary op e ih =>
    have all := Part.tokens_of_piece (List.forall_mem_cons.2 ⟨whole e, ih⟩) [op] []
    simpa [tokens, inner] using all
  | binary a op b iha ihb | and a op b iha ihb | or a op b iha ihb =>
    have left := Part.tokens_of_piece (List.forall_mem_cons.2 ⟨whole a, iha⟩) [] (op :: b.tokens)
    have right := Part.tokens_of_piece (List.forall_mem_cons.2 ⟨whole b, ihb⟩) (a.tokens ++ [op]) []
    refine List.forall_mem_append.2 ⟨left, fun p mem => (right p mem).trans ?_⟩
    simp [tokens]
  | conditional c mark a colon b ihc iha ihb =>
    have first := Part.tokens_of_piece (List.forall_mem_cons.2 ⟨whole c, ihc⟩) []
      (mark :: (a.tokens ++ colon :: b.tokens))
    have second := Part.tokens_of_piece (List.forall_mem_cons.2 ⟨whole a, iha⟩) (c.tokens ++ [mark])
      (colon :: b.tokens)
    have third := Part.tokens_of_piece (List.forall_mem_cons.2 ⟨whole b, ihb⟩)
      (c.tokens ++ mark :: (a.tokens ++ [colon])) []
    refine List.forall_mem_append.2 ⟨first, List.forall_mem_append.2
      ⟨fun p mem => (second p mem).trans ?_, fun p mem => (third p mem).trans ?_⟩⟩
    · simp [tokens]
    · simp [tokens]

mutual

theorem Stmt.tokens_parts : (s : Stmt) → ∀ p ∈ s.parts, p.tokens = s.tokens
  | .print word e semicolon => Part.tokens_of_piece e.tokens_parts [word] [semicolon]
  | .expression e semicolon => Part.tokens_of_piece e.tokens_parts [] [semicolon]
  | .branch word c s rest => Part.tokens_of_arm word c.tokens_parts s.tokens_parts rest.tokens_parts
  | .loop word c s => by
    have first := Part.tokens_of_piece c.tokens_parts [word] s.tokens
    have second := Part.tokens_of_piece s.tokens_parts (word :: c.tokens) []
    refine List.forall_mem_append.2 ⟨first, fun p mem => (second p mem).trans ?_⟩
    simp [Stmt.tokens]
  | .block opening ds closing => Part.tokens_of_piece (tokens_partsAll ds) [opening] [closing]

theorem Rest.tokens_parts : (r : Rest) → ∀ p ∈ r.parts, p.tokens = r.tokens
  | .done => fun _ mem => absurd mem List.not_mem_nil
  | .elif word c s rest => Part.tokens_of_arm word c.tokens_parts s.tokens_parts rest.tokens_parts
  | .otherwise word s => fun p mem =>
    (Part.tokens_of_piece s.tokens_parts [word] [] p mem).trans (by simp [Rest.tokens])

theorem Decl.tokens_parts : (d : Decl) → ∀ p ∈ d.parts, p.tokens = d.tokens
  | .bind _ _ _ => fun _ mem => absurd mem List.not_mem_nil
  | .bindTo word name equals e semicolon =>
    Part.tokens_of_piece e.tokens_parts [word, name, equals] [semicolon]
  | .statement s => s.tokens_parts

theorem tokens_partsAll : (ds : List Decl) → ∀ p ∈ partsAll ds, p.tokens = tokensAll ds
  | [] => fun _ mem => absurd mem List.not_mem_nil
  | d :: ds => by
    have first := Part.tokens_of_piece d.tokens_parts [] (tokensAll ds)
    have second := Part.tokens_of_piece (tokens_partsAll ds) d.tokens []
    refine List.forall_mem_append.2 ⟨first, fun p mem => (second p mem).trans ?_⟩
    simp [tokensAll]

end

namespace Grammar

theorem Expression.tokens {l : Level} {ts : List Token} {e : Expr} (h : Expression l ts e) :
    ts = e.tokens := by
  induction h with
  | assign _ _ _ ih | compound _ _ _ ih | unary _ _ ih => rw [ih]; rfl
  | tighter _ _ ih => exact ih
  | conditional _ _ _ _ _ ihc iha ihb => rw [ihc, iha, ihb]; rfl
  | or _ _ _ iha ihb | and _ _ _ iha ihb | binary _ _ _ iha ihb => rw [iha, ihb]; rfl
  | literal _ | name _ => rfl
  | group _ _ _ ih => rw [ih]; rfl

mutual

theorem Statement.tokens {ts : List Token} {s : Stmt} : Statement ts s → ts = s.tokens
  | .print _ e _ => by rw [e.tokens]; rfl
  | .expression e _ => by rw [e.tokens]; rfl
  | .branch _ c s r _ => by rw [c.tokens, s.tokens, r.tokens]; rfl
  | .loop _ c s => by rw [c.tokens, s.tokens]; rfl
  | .block _ ds _ => by rw [ds.tokens]; rfl

theorem Continuation.tokens {ts : List Token} {r : Rest} : Continuation ts r → ts = r.tokens
  | .done => rfl
  | .elif _ c s r _ => by rw [c.tokens, s.tokens, r.tokens]; rfl
  | .otherwise _ s => by rw [s.tokens]; rfl

theorem Declaration.tokens {ts : List Token} {d : Decl} : Declaration ts d → ts = d.tokens
  | .bind _ _ _ => rfl
  | .bindTo _ _ _ e _ => by rw [e.tokens]; rfl
  | .statement s => s.tokens

theorem Program.tokens {ts : List Token} {ds : List Decl} : Program ts ds → ts = tokensAll ds
  | .nil => rfl
  | .cons d ds => by rw [d.tokens, ds.tokens]; rfl

end

end Grammar

end StackScript
