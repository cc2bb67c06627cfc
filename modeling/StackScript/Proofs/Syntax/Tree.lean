import StackScript.Token.Basic

/-! Syntax trees. Every token of a text stands in its tree, so that a tree knows its
places in the source. A conjunction and a disjunction are not binary operations,
because they may leave their right side alone. -/

namespace StackScript

inductive Expr where
  | literal (t : Token)
  | name (t : Token)
  | assign (target op : Token) (value : Expr)
  | compound (target op : Token) (value : Expr)
  | group (opening : Token) (inner : Expr) (closing : Token)
  | unary (op : Token) (operand : Expr)
  | binary (left : Expr) (op : Token) (right : Expr)
  | conditional (condition : Expr) (mark : Token) (yes : Expr) (colon : Token) (no : Expr)
  | and (left : Expr) (op : Token) (right : Expr)
  | or (left : Expr) (op : Token) (right : Expr)
deriving DecidableEq

mutual

inductive Stmt where
  | print (word : Token) (value : Expr) (semicolon : Token)
  | expression (value : Expr) (semicolon : Token)
  | branch (word : Token) (condition : Expr) (body : Stmt) (rest : Rest)
  | loop (word : Token) (condition : Expr) (body : Stmt)
  | block (opening : Token) (body : List Decl) (closing : Token)

/-- What follows the first arm of a branch. -/
inductive Rest where
  | done
  | elif (word : Token) (condition : Expr) (body : Stmt) (rest : Rest)
  | otherwise (word : Token) (body : Stmt)

inductive Decl where
  | bind (word name semicolon : Token)
  | bindTo (word name equals : Token) (value : Expr) (semicolon : Token)
  | statement (body : Stmt)

end

namespace Expr

def leading : Expr → Token
  | .literal t | .name t | .assign t _ _ | .compound t _ _ | .group t _ _ | .unary t _ => t
  | .binary a _ _ | .conditional a _ _ _ _ | .and a _ _ | .or a _ _ => a.leading

def names : Expr → List Text
  | .literal _ => []
  | .name t => [t.lexeme]
  | .assign t _ e | .compound t _ e => t.lexeme :: e.names
  | .group _ e _ | .unary _ e => e.names
  | .binary a _ b | .and a _ b | .or a _ b => a.names ++ b.names
  | .conditional c _ a _ b => c.names ++ (a.names ++ b.names)

def literals : Expr → List Token
  | .literal t => [t]
  | .name _ => []
  | .assign _ _ e | .compound _ _ e | .group _ e _ | .unary _ e => e.literals
  | .binary a _ b | .and a _ b | .or a _ b => a.literals ++ b.literals
  | .conditional c _ a _ b => c.literals ++ (a.literals ++ b.literals)

end Expr

namespace Stmt

def leading : Stmt → Token
  | .print t _ _ | .branch t _ _ _ | .loop t _ _ | .block t _ _ => t
  | .expression e _ => e.leading

end Stmt

mutual

def Stmt.trailing : Stmt → Token
  | .print _ _ t | .expression _ t | .block _ _ t => t
  | .branch _ _ s rest => rest.trailing s.trailing
  | .loop _ _ s => s.trailing

def Rest.trailing : Rest → Token → Token
  | .done, t => t
  | .elif _ _ s rest, _ => rest.trailing s.trailing
  | .otherwise _ s, _ => s.trailing

end

namespace Decl

def leading : Decl → Token
  | .bind t _ _ | .bindTo t _ _ _ _ => t
  | .statement s => s.leading

def trailing : Decl → Token
  | .bind _ _ t | .bindTo _ _ _ _ t => t
  | .statement s => s.trailing

def span (d : Decl) : Span := d.leading.span.join d.trailing.span

end Decl

mutual

/-- Whether a further arm would belong to the statement. -/
def Stmt.dangling : Stmt → Bool
  | .branch _ _ _ rest => rest.dangling
  | .loop _ _ s => s.dangling
  | _ => false

def Rest.dangling : Rest → Bool
  | .done => true
  | .elif _ _ _ rest => rest.dangling
  | .otherwise _ s => s.dangling

end

mutual

/-- Whether every condition is the longest expression that can be read where it stands.
Only a minus both begins a statement and continues an expression. -/
def Stmt.greedy : Stmt → Bool
  | .branch _ _ s rest => s.leading.kind ≠ .minus && s.greedy && rest.greedy
  | .loop _ _ s => s.leading.kind ≠ .minus && s.greedy
  | .block _ ds _ => greedyAll ds
  | _ => true

def Rest.greedy : Rest → Bool
  | .done => true
  | .elif _ _ s rest => s.leading.kind ≠ .minus && s.greedy && rest.greedy
  | .otherwise _ s => s.greedy

def Decl.greedy : Decl → Bool
  | .statement s => s.greedy
  | _ => true

def greedyAll : List Decl → Bool
  | [] => true
  | d :: ds => d.greedy && greedyAll ds

end

def Decl.bound? : Decl → Option Text
  | .bind _ name _ | .bindTo _ name _ _ _ => some name.lexeme
  | .statement _ => none

/-- The locals behind a declaration; on the outermost level there are none. -/
def Decl.extend (top : Bool) (locals : List Text) (d : Decl) : List Text :=
  if top then locals else d.bound?.toList ++ locals

/-- The variables that a list of declarations introduces, the last one first. -/
def boundNames (ds : List Decl) : List Text := (ds.filterMap Decl.bound?).reverse

theorem boundNames_cons (d : Decl) (ds : List Decl) (locals : List Text) :
    boundNames (d :: ds) ++ locals = boundNames ds ++ d.extend false locals := by
  unfold boundNames Decl.extend
  cases bound : d.bound? with
  | none => simp [bound]
  | some x => simp [bound]

end StackScript
