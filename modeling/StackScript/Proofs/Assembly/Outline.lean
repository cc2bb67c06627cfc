import StackScript.Proofs.Machine.Symbolic

/-! What code is made up of. The outline of a tree says which bytes belong to which construct, a
declaration or a single instruction with a token to blame, and which constructs stand inside
which, and it knows nothing of instructions, constants or recorded spans. The constructs come in
the order in which they close, so that of two of them the earlier one ends before the other
begins, or stands inside it. -/

namespace StackScript

/-- What a stretch of code is made up of: bytes that belong to no further construct, and
constructs with the outline of what is inside them. -/
inductive Outline where
  | nil
  | bytes (n : Nat) (after : Outline)
  | construct (span : Span) (inner after : Outline)
deriving DecidableEq

/-- A construct and the offsets of its code. Its path tells at every level which construct leads
to it, counted from zero. -/
structure Construct where
  path : List Nat
  start : Nat
  stop : Nat
  span : Span
deriving DecidableEq

namespace Construct

def Inside (c d : Construct) : Prop := ∃ k rest, c.path = d.path ++ k :: rest

def Covers (c : Construct) (offset : Int) : Prop := c.start ≤ offset ∧ offset < c.stop

inductive Precedes (c d : Construct) : Prop where
  | apart : c.stop ≤ d.start → ¬ c.Inside d → Precedes c d
  | inside : c.Inside d → d.start ≤ c.start → c.stop ≤ d.stop → Precedes c d

def hasCode (c : Construct) : Bool := c.start < c.stop

def entry (c : Construct) : SpanEntry := ⟨c.start, c.stop, c.span⟩

variable {c d : Construct} {offset : Int}

theorem Inside.length_lt (h : c.Inside d) : d.path.length < c.path.length := by
  obtain ⟨k, rest, path⟩ := h
  rw [path, List.length_append, List.length_cons]
  omega

theorem Inside.asymm (h : c.Inside d) : ¬ d.Inside c := fun h' =>
  Nat.lt_asymm h.length_lt h'.length_lt

theorem Precedes.inside_of_covers (h : c.Precedes d) (covers : c.Covers offset)
    (covers' : d.Covers offset) : c.Inside d := by
  cases h with
  | inside inside => exact inside
  | apart before =>
    obtain ⟨_, short⟩ := covers
    obtain ⟨begun, _⟩ := covers'
    omega

end Construct

namespace Outline

open Construct

def size : Outline → Nat
  | .nil => 0
  | .bytes n after => n + after.size
  | .construct _ inner after => inner.size + after.size

def append : Outline → Outline → Outline
  | .nil, y => y
  | .bytes n after, y => .bytes n (after.append y)
  | .construct span inner after, y => .construct span inner (after.append y)

instance : Append Outline := ⟨append⟩

@[simp] theorem nil_append (y : Outline) : nil ++ y = y := rfl

@[simp] theorem bytes_append (n : Nat) (x y : Outline) : bytes n x ++ y = bytes n (x ++ y) := rfl

@[simp] theorem construct_append (span : Span) (inner x y : Outline) :
    construct span inner x ++ y = construct span inner (x ++ y) := rfl

@[simp] theorem size_append (x y : Outline) : (x ++ y).size = x.size + y.size := by
  induction x with
  | nil => simp [size]
  | bytes n after ih => simp only [bytes_append, size, ih, Nat.add_assoc]
  | construct span inner after _ ih => simp only [construct_append, size, ih, Nat.add_assoc]

/-- The constructs of an outline at a path and from an index on, in the order in which they
close. -/
def constructs (path : List Nat) : (index offset : Nat) → Outline → List Construct
  | _, _, .nil => []
  | index, offset, .bytes n after => after.constructs path index (offset + n)
  | index, offset, .construct span inner after =>
    inner.constructs (path ++ [index]) 0 offset ++
      (⟨path ++ [index], offset, offset + inner.size, span⟩ ::
        after.constructs path (index + 1) (offset + inner.size))

def entries : (offset : Nat) → Outline → List SpanEntry
  | _, .nil => []
  | offset, .bytes n after => after.entries (offset + n)
  | offset, .construct span inner after =>
    inner.entries offset ++ (if inner.size = 0 then [] else [⟨offset, offset + inner.size, span⟩]) ++
      after.entries (offset + inner.size)

theorem entries_append (x y : Outline) (offset : Nat) :
    (x ++ y).entries offset = x.entries offset ++ y.entries (offset + x.size) := by
  induction x generalizing offset with
  | nil => rfl
  | bytes n after ih => simp only [bytes_append, entries, ih, size, Nat.add_assoc]
  | construct span inner after _ ih =>
    simp only [construct_append, entries, ih, size, List.append_assoc, Nat.add_assoc]

theorem entries_shift (x : Outline) (offset n : Nat) :
    x.entries (offset + n) = (x.entries offset).map (·.shift n) := by
  induction x generalizing offset with
  | nil => rfl
  | bytes m after ih =>
    rw [entries, entries, ← ih]
    congr 1
    omega
  | construct span inner after ih ih' =>
    have place : offset + n + inner.size = offset + inner.size + n := by omega
    simp only [entries, List.map_append, ← ih, ← ih', place]
    congr 2
    split
    · rfl
    · simp only [List.map_cons, List.map_nil, SpanEntry.shift, List.cons.injEq, and_true,
        SpanEntry.mk.injEq]
      omega

theorem map_entry_constructs (x : Outline) (path : List Nat) (index offset : Nat) :
    ((x.constructs path index offset).filter hasCode).map entry = x.entries offset := by
  induction x generalizing path index offset with
  | nil => rfl
  | bytes n after ih => exact ih path index (offset + n)
  | construct span inner after ih ih' =>
    rw [constructs, entries, List.filter_append, List.map_append, ih, List.filter_cons,
      List.append_assoc]
    congr 1
    by_cases empty : inner.size = 0
    · simp only [empty, hasCode, Nat.add_zero, Nat.lt_irrefl, decide_false, Bool.false_eq_true,
        if_false, if_true, List.nil_append]
      exact ih' ..
    · have code : hasCode ⟨path ++ [index], offset, offset + inner.size, span⟩ = true := by
        simp only [hasCode, decide_eq_true_eq]
        omega
      rw [if_pos code, if_neg empty, List.map_cons, ih']
      rfl

variable {x : Outline} {path : List Nat} {index offset : Nat} {c : Construct}

theorem bounds_of_mem (mem : c ∈ x.constructs path index offset) :
    offset ≤ c.start ∧ c.start ≤ c.stop ∧ c.stop ≤ offset + x.size := by
  induction x generalizing path index offset with
  | nil => exact absurd mem List.not_mem_nil
  | bytes n after ih =>
    have bounds := ih mem
    rw [size]
    omega
  | construct span inner after ih ih' =>
    rw [size]
    rcases List.mem_append.1 mem with mem | mem
    · have bounds := ih mem
      omega
    · rcases List.mem_cons.1 mem with rfl | mem
      · dsimp only
        omega
      · have bounds := ih' mem
        omega

theorem path_of_mem (mem : c ∈ x.constructs path index offset) :
    ∃ k rest, index ≤ k ∧ c.path = path ++ k :: rest := by
  induction x generalizing path index offset with
  | nil => exact absurd mem List.not_mem_nil
  | bytes n after ih => exact ih mem
  | construct span inner after ih ih' =>
    rcases List.mem_append.1 mem with mem | mem
    · obtain ⟨k, rest, _, there⟩ := ih mem
      exact ⟨index, k :: rest, Nat.le_refl _, by rw [there, List.append_assoc]; rfl⟩
    · rcases List.mem_cons.1 mem with rfl | mem
      · exact ⟨index, [], Nat.le_refl _, rfl⟩
      · obtain ⟨k, rest, further, there⟩ := ih' mem
        exact ⟨k, rest, Nat.le_of_succ_le further, there⟩

/-- What leads through different constructs of one level does not lead into one another. -/
theorem not_inside_of_lt {d : Construct} {k k' : Nat} {rest rest' : List Nat}
    (before : c.path = path ++ k :: rest) (behind : d.path = path ++ k' :: rest')
    (other : k < k') : ¬ c.Inside d := by
  rintro ⟨j, more, through⟩
  rw [before, behind, List.append_assoc] at through
  have same := (List.cons.inj (List.append_cancel_left through)).1
  omega

theorem pairwise_precedes (x : Outline) (path : List Nat) (index offset : Nat) :
    (x.constructs path index offset).Pairwise Precedes := by
  induction x generalizing path index offset with
  | nil => exact .nil
  | bytes n after ih => exact ih path index (offset + n)
  | construct span inner after ih ih' =>
    have apart {c d : Construct} {rest : List Nat} (path' : c.path = path ++ index :: rest)
        (ends : c.stop ≤ offset + inner.size)
        (mem : d ∈ after.constructs path (index + 1) (offset + inner.size)) : c.Precedes d := by
      obtain ⟨k, _, further, there⟩ := path_of_mem mem
      exact .apart (Nat.le_trans ends (bounds_of_mem mem).1) (not_inside_of_lt path' there further)
    refine List.pairwise_append.2 ⟨ih .., List.pairwise_cons.2 ⟨fun d mem => ?_, ih' ..⟩, ?_⟩
    · exact apart rfl (Nat.le_refl _) mem
    · intro c mem d mem'
      obtain ⟨start, _, stop⟩ := bounds_of_mem mem
      obtain ⟨k, rest, _, there⟩ := path_of_mem mem
      rcases List.mem_cons.1 mem' with rfl | mem'
      · exact .inside ⟨k, rest, there⟩ start stop
      · exact apart (by rw [there, List.append_assoc]; rfl) stop mem'

def blaming (a : Asm) (t : Token) : Outline := construct t.span (bytes a.size nil) nil

def operation (op : Option Opcode) (t : Token) : Outline :=
  match op with
  | some op => blaming (.plain op) t
  | none => nil

def behindJump (x : Outline) : Outline := bytes 3 (bytes 1 x)

def guarded (c s : Outline) : Outline := c ++ behindJump s

def arm (c s rest : Outline) : Outline := guarded c s ++ behindJump rest

def loop (c s : Outline) : Outline := guarded c s ++ behindJump nil

def binding (top : Bool) : Outline := if top then bytes 3 nil else nil

end Outline

open Outline

def Expr.outline (locals : List Text) : Expr → Outline
  | .literal t => bytes (Fragment.literal t).size nil
  | .name t => blaming (.get (locate t.lexeme locals)) t
  | .assign t _ e => e.outline locals ++ blaming (.set (locate t.lexeme locals)) t
  | .compound t op e =>
    blaming (.get (locate t.lexeme locals)) t ++ (e.outline locals ++
      (operation (Opcode.ofCompound? op.kind) op ++ blaming (.set (locate t.lexeme locals)) t))
  | .group _ e _ => e.outline locals
  | .unary op e => e.outline locals ++ blaming (.plain (Opcode.ofUnary op.kind)) op
  | .binary a op b =>
    a.outline locals ++ (b.outline locals ++ operation (Opcode.ofBinary? op.kind) op)
  | .conditional c mark a _ b =>
    c.outline locals ++ (a.outline locals ++ (b.outline locals ++ blaming (.plain .ternary) mark))
  | .and a _ b => a.outline locals ++ behindJump (b.outline locals)
  | .or a _ b => a.outline locals ++ bytes 3 (behindJump (b.outline locals))

mutual

def Stmt.outline (locals : List Text) : Stmt → Outline
  | .print _ e _ | .expression e _ => e.outline locals ++ bytes 1 nil
  | .branch _ c s rest => arm (c.outline locals) (s.outline locals) (rest.outline locals)
  | .loop _ c s => Outline.loop (c.outline locals) (s.outline locals)
  | .block _ ds _ => outlineAll false locals ds ++ bytes (boundNames ds).length nil

def Rest.outline (locals : List Text) : Rest → Outline
  | .done => nil
  | .elif _ c s rest => arm (c.outline locals) (s.outline locals) (rest.outline locals)
  | .otherwise _ s => s.outline locals

def Decl.outline (top : Bool) (locals : List Text) : Decl → Outline
  | .bind _ _ _ => bytes 1 (binding top)
  | .bindTo _ _ _ e _ => e.outline locals ++ binding top
  | .statement s => s.outline locals

def outlineAll (top : Bool) (locals : List Text) : List Decl → Outline
  | [] => nil
  | d :: ds => construct d.span (d.outline top locals) (outlineAll top (d.extend top locals) ds)

end

/-- The constructs of a whole text that have code, in the order in which they close. -/
def constructsOf (ds : List Decl) : List Construct :=
  ((outlineAll true [] ds).constructs [] 0 0).filter Construct.hasCode

theorem pairwise_constructsOf (ds : List Decl) : (constructsOf ds).Pairwise Construct.Precedes :=
  (pairwise_precedes ..).filter _

end StackScript
