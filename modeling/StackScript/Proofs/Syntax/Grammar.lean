import StackScript.Compiler.Expression
import StackScript.Proofs.Syntax.Tree

/-! The grammar. An expression of a level is an operation of that level or an
expression of the next tighter one; the tightest level also holds the operands.
Conjunctions, disjunctions and conditionals group to the right, all other operations
to the left. A further arm belongs to the nearest branch, so a statement that could
still take one is followed by none. -/

namespace StackScript.Grammar

def operators : Level → List TokenKind
  | .equality => [.equal, .bangEqual]
  | .comparison => [.less, .lessEqual, .greater, .greaterEqual]
  | .term => [.plus, .minus]
  | .factor => [.star, .slash]
  | _ => []

def compounds : List TokenKind := [.plusEqual, .minusEqual, .starEqual, .slashEqual]

def literals : List TokenKind := [.int, .float, .string, .kwTrue, .kwFalse, .kwNone]

inductive Expression : Level → List Token → Expr → Prop where
  | assign {target op : Token} {ts : List Token} {e : Expr} :
      target.kind = .identifier → op.kind = .assign → Expression .assignment ts e →
      Expression .assignment (target :: op :: ts) (.assign target op e)
  | compound {target op : Token} {ts : List Token} {e : Expr} :
      target.kind = .identifier → op.kind ∈ compounds → Expression .assignment ts e →
      Expression .assignment (target :: op :: ts) (.compound target op e)
  | tighter {l : Level} {ts : List Token} {e : Expr} :
      l ≠ .none → Expression l.tighter ts e → Expression l ts e
  | conditional {mark colon : Token} {ts us vs : List Token} {c a b : Expr} :
      Expression .or ts c → mark.kind = .question → Expression .ternary us a →
      colon.kind = .colon → Expression .ternary vs b →
      Expression .ternary (ts ++ mark :: (us ++ colon :: vs)) (.conditional c mark a colon b)
  | or {op : Token} {ts us : List Token} {a b : Expr} :
      Expression .and ts a → op.kind = .kwOr → Expression .or us b →
      Expression .or (ts ++ op :: us) (.or a op b)
  | and {op : Token} {ts us : List Token} {a b : Expr} :
      Expression .equality ts a → op.kind = .kwAnd → Expression .and us b →
      Expression .and (ts ++ op :: us) (.and a op b)
  | binary {l : Level} {op : Token} {ts us : List Token} {a b : Expr} :
      Expression l ts a → op.kind ∈ operators l → Expression l.tighter us b →
      Expression l (ts ++ op :: us) (.binary a op b)
  | unary {op : Token} {ts : List Token} {e : Expr} :
      op.kind = .minus ∨ op.kind = .bang → Expression .unary ts e →
      Expression .unary (op :: ts) (.unary op e)
  | literal {t : Token} : t.kind ∈ literals → Expression .unary [t] (.literal t)
  | name {t : Token} : t.kind = .identifier → Expression .unary [t] (.name t)
  | group {opening closing : Token} {ts : List Token} {e : Expr} :
      opening.kind = .leftParen → Expression .assignment ts e → closing.kind = .rightParen →
      Expression .unary (opening :: (ts ++ [closing])) (.group opening e closing)

mutual

inductive Statement : List Token → Stmt → Prop where
  | print {word semicolon : Token} {ts : List Token} {e : Expr} :
      word.kind = .kwPrint → Expression .assignment ts e → semicolon.kind = .semicolon →
      Statement (word :: (ts ++ [semicolon])) (.print word e semicolon)
  | expression {semicolon : Token} {ts : List Token} {e : Expr} :
      Expression .assignment ts e → semicolon.kind = .semicolon →
      Statement (ts ++ [semicolon]) (.expression e semicolon)
  | branch {word : Token} {ts us vs : List Token} {c : Expr} {s : Stmt} {r : Rest} :
      word.kind = .kwIf → Expression .assignment ts c → Statement us s → Continuation vs r →
      (vs ≠ [] → s.dangling = false) →
      Statement (word :: (ts ++ (us ++ vs))) (.branch word c s r)
  | loop {word : Token} {ts us : List Token} {c : Expr} {s : Stmt} :
      word.kind = .kwWhile → Expression .assignment ts c → Statement us s →
      Statement (word :: (ts ++ us)) (.loop word c s)
  | block {opening closing : Token} {ts : List Token} {ds : List Decl} :
      opening.kind = .leftBrace → Program ts ds → closing.kind = .rightBrace →
      Statement (opening :: (ts ++ [closing])) (.block opening ds closing)

inductive Continuation : List Token → Rest → Prop where
  | done : Continuation [] .done
  | elif {word : Token} {ts us vs : List Token} {c : Expr} {s : Stmt} {r : Rest} :
      word.kind = .kwElif → Expression .assignment ts c → Statement us s → Continuation vs r →
      (vs ≠ [] → s.dangling = false) →
      Continuation (word :: (ts ++ (us ++ vs))) (.elif word c s r)
  | otherwise {word : Token} {ts : List Token} {s : Stmt} :
      word.kind = .kwElse → Statement ts s → Continuation (word :: ts) (.otherwise word s)

inductive Declaration : List Token → Decl → Prop where
  | bind {word name semicolon : Token} :
      word.kind = .kwLet → name.kind = .identifier → semicolon.kind = .semicolon →
      Declaration [word, name, semicolon] (.bind word name semicolon)
  | bindTo {word name equals semicolon : Token} {ts : List Token} {e : Expr} :
      word.kind = .kwLet → name.kind = .identifier → equals.kind = .assign →
      Expression .assignment ts e → semicolon.kind = .semicolon →
      Declaration (word :: name :: equals :: (ts ++ [semicolon]))
        (.bindTo word name equals e semicolon)
  | statement {ts : List Token} {s : Stmt} : Statement ts s → Declaration ts (.statement s)

inductive Program : List Token → List Decl → Prop where
  | nil : Program [] []
  | cons {ts us : List Token} {d : Decl} {ds : List Decl} :
      Declaration ts d → Program us ds → Program (ts ++ us) (d :: ds)

end

def operands : List TokenKind := literals ++ [.identifier, .leftParen, .minus, .bang]

theorem eof_not_mem_operators (l : Level) : TokenKind.eof ∉ operators l := by
  cases l <;> decide

theorem Expression.leading {l : Level} {ts : List Token} {e : Expr} (h : Expression l ts e) :
    ∃ us, ts = e.leading :: us ∧ e.leading.kind ∈ operands := by
  induction h with
  | assign target _ _ _ => exact ⟨_, rfl, by simp [Expr.leading, target, operands]⟩
  | compound target _ _ _ => exact ⟨_, rfl, by simp [Expr.leading, target, operands]⟩
  | tighter _ _ ih => exact ih
  | conditional _ _ _ _ _ ih _ _ =>
    obtain ⟨us, rfl, kind⟩ := ih
    exact ⟨_, rfl, kind⟩
  | or _ _ _ ih _ =>
    obtain ⟨us, rfl, kind⟩ := ih
    exact ⟨_, rfl, kind⟩
  | and _ _ _ ih _ =>
    obtain ⟨us, rfl, kind⟩ := ih
    exact ⟨_, rfl, kind⟩
  | binary _ _ _ ih _ =>
    obtain ⟨us, rfl, kind⟩ := ih
    exact ⟨_, rfl, kind⟩
  | unary op _ _ => exact ⟨_, rfl, by rcases op with op | op <;> simp [Expr.leading, op, operands]⟩
  | literal kind => exact ⟨_, rfl, List.mem_append_left _ kind⟩
  | name kind => exact ⟨_, rfl, by simp [Expr.leading, kind, operands]⟩
  | group opening _ _ _ => exact ⟨_, rfl, by simp [Expr.leading, opening, operands]⟩

def Running (ts : List Token) : Prop := ∀ t ∈ ts, t.kind ≠ .eof

@[simp] theorem running_nil : Running [] := by simp [Running]

@[simp] theorem running_cons (t : Token) (ts : List Token) :
    Running (t :: ts) ↔ t.kind ≠ .eof ∧ Running ts := by simp [Running]

@[simp] theorem running_append (ts us : List Token) :
    Running (ts ++ us) ↔ Running ts ∧ Running us := by simp [Running, or_imp, forall_and]

theorem Expression.running {l : Level} {ts : List Token} {e : Expr} (h : Expression l ts e) :
    Running ts := by
  induction h with
  | assign target op _ ih => simp [target, op, ih]
  | compound target op _ ih =>
    have running := ne_of_mem_of_not_mem op (by decide : TokenKind.eof ∉ compounds)
    simp [target, running, ih]
  | tighter _ _ ih => exact ih
  | conditional _ mark _ colon _ ihc iha ihb => simp [mark, colon, ihc, iha, ihb]
  | or _ op _ iha ihb => simp [op, iha, ihb]
  | and _ op _ iha ihb => simp [op, iha, ihb]
  | binary _ op _ iha ihb =>
    have running := ne_of_mem_of_not_mem op (eof_not_mem_operators _)
    simp [running, iha, ihb]
  | unary op _ ih =>
    rcases op with op | op
    all_goals simp [op, ih]
  | literal kind =>
    have running := ne_of_mem_of_not_mem kind (by decide : TokenKind.eof ∉ literals)
    simp [running]
  | name kind => simp [kind]
  | group opening _ closing ih => simp [opening, closing, ih]

mutual

theorem Statement.running {ts : List Token} {s : Stmt} : Statement ts s → Running ts
  | .print word e semicolon => by simp [word, semicolon, e.running]
  | .expression e semicolon => by simp [semicolon, e.running]
  | .branch word c s r _ => by simp [word, c.running, s.running, r.running]
  | .loop word c s => by simp [word, c.running, s.running]
  | .block opening ds closing => by simp [opening, closing, ds.running]

theorem Continuation.running {ts : List Token} {r : Rest} : Continuation ts r → Running ts
  | .done => running_nil
  | .elif word c s r _ => by simp [word, c.running, s.running, r.running]
  | .otherwise word s => by simp [word, s.running]

theorem Declaration.running {ts : List Token} {d : Decl} : Declaration ts d → Running ts
  | .bind word name semicolon => by simp [word, name, semicolon]
  | .bindTo word name equals e semicolon => by simp [word, name, equals, semicolon, e.running]
  | .statement s => s.running

theorem Program.running {ts : List Token} {ds : List Decl} : Program ts ds → Running ts
  | .nil => running_nil
  | .cons d ds => by simp [d.running, ds.running]

end

def starts : List TokenKind := operands ++ [.kwPrint, .kwIf, .kwWhile, .leftBrace]

theorem Statement.leading {ts : List Token} {s : Stmt} (h : Statement ts s) :
    ∃ us, ts = s.leading :: us ∧ s.leading.kind ∈ starts := by
  cases h with
  | print word _ _ => exact ⟨_, rfl, by simp [Stmt.leading, word, starts]⟩
  | expression e _ =>
    obtain ⟨us, rfl, kind⟩ := e.leading
    exact ⟨_, rfl, List.mem_append_left _ kind⟩
  | branch word _ _ _ _ => exact ⟨_, rfl, by simp [Stmt.leading, word, starts]⟩
  | loop word _ _ => exact ⟨_, rfl, by simp [Stmt.leading, word, starts]⟩
  | block opening _ _ => exact ⟨_, rfl, by simp [Stmt.leading, opening, starts]⟩

theorem Declaration.leading {ts : List Token} {d : Decl} (h : Declaration ts d) :
    ∃ us, ts = d.leading :: us ∧ d.leading.kind ∈ .kwLet :: starts := by
  cases h with
  | bind word _ _ => exact ⟨_, rfl, by simp [Decl.leading, word]⟩
  | bindTo word _ _ _ _ => exact ⟨_, rfl, by simp [Decl.leading, word]⟩
  | statement s =>
    obtain ⟨us, rfl, kind⟩ := s.leading
    exact ⟨us, rfl, List.mem_cons_of_mem _ kind⟩

theorem Continuation.leading {ts : List Token} {r : Rest} (h : Continuation ts r) :
    ts = [] ∧ r = .done ∨ ∃ t us, ts = t :: us ∧ (t.kind = .kwElif ∨ t.kind = .kwElse) := by
  cases h with
  | done => exact .inl ⟨rfl, rfl⟩
  | elif word _ _ _ _ => exact .inr ⟨_, _, rfl, .inl word⟩
  | otherwise word _ => exact .inr ⟨_, _, rfl, .inr word⟩

mutual

theorem Statement.trailing {ts : List Token} {s : Stmt} :
    Statement ts s → ts.getLast? = some s.trailing
  | .print _ _ _ => by simp [Stmt.trailing, List.getLast?_cons]
  | .expression _ _ => by simp [Stmt.trailing]
  | .branch _ _ s r _ => by
    simp [Stmt.trailing, List.getLast?_cons, List.getLast?_append, s.trailing, r.trailing]
  | .loop _ _ s => by
    simp [Stmt.trailing, List.getLast?_cons, List.getLast?_append, s.trailing]
  | .block _ _ _ => by simp [Stmt.trailing, List.getLast?_cons]

theorem Continuation.trailing {ts : List Token} {r : Rest} :
    Continuation ts r → ∀ t, ts.getLast?.or (some t) = some (r.trailing t)
  | .done, _ => rfl
  | .elif _ _ s r _, _ => by
    simp [Rest.trailing, List.getLast?_cons, List.getLast?_append, s.trailing, r.trailing]
  | .otherwise _ s, _ => by simp [Rest.trailing, List.getLast?_cons, s.trailing]

end

theorem Declaration.trailing {ts : List Token} {d : Decl} (h : Declaration ts d) :
    ts.getLast? = some d.trailing := by
  cases h with
  | bind _ _ _ => rfl
  | bindTo _ _ _ _ _ => simp [Decl.trailing, List.getLast?_cons]
  | statement s => exact s.trailing

end StackScript.Grammar
