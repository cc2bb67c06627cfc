import StackScript.Proofs.Assembly.Asm

/-! Fragments of code with the constants that they need, in the order of their first use,
and the spans that they record, counted from where the fragment begins. A fragment does not
depend on what stands before it. -/

namespace StackScript

def SpanEntry.shift (n : Nat) (e : SpanEntry) : SpanEntry :=
  { e with start := e.start + n, stop := e.stop + n }

theorem SpanEntry.shift_shift (m n : Nat) (e : SpanEntry) :
    (e.shift m).shift n = e.shift (n + m) := by
  simp only [shift, mk.injEq, and_true]
  omega

theorem SpanEntry.shift_zero (e : SpanEntry) : e.shift 0 = e := by
  simp [shift]

structure Fragment where
  code : List Asm := []
  uses : List Value := []
  marks : List SpanEntry := []

namespace Fragment

def size (f : Fragment) : Nat := Asm.total f.code

theorem total_code (f : Fragment) : Asm.total f.code = f.size := rfl

instance : Append Fragment where
  append f g := ⟨f.code ++ g.code, f.uses ++ g.uses, f.marks ++ g.marks.map (·.shift f.size)⟩

@[simp] theorem code_append (f g : Fragment) : (f ++ g).code = f.code ++ g.code := rfl

@[simp] theorem uses_append (f g : Fragment) : (f ++ g).uses = f.uses ++ g.uses := rfl

@[simp] theorem marks_append (f g : Fragment) :
    (f ++ g).marks = f.marks ++ g.marks.map (·.shift f.size) := rfl

@[simp] theorem size_append (f g : Fragment) : (f ++ g).size = f.size + g.size := by simp [size]

theorem append_assoc (f g h : Fragment) : f ++ g ++ h = f ++ (g ++ h) := by
  change Fragment.mk _ _ _ = Fragment.mk _ _ _
  simp only [mk.injEq, code_append, uses_append, marks_append, List.append_assoc, List.map_append,
    List.map_map, size_append, true_and, List.append_cancel_left_eq]
  exact List.map_congr_left fun e _ => (e.shift_shift _ _).symm

def of (code : List Asm) : Fragment := { code }

@[simp] theorem code_of (code : List Asm) : (of code).code = code := rfl

@[simp] theorem uses_of (code : List Asm) : (of code).uses = [] := rfl

@[simp] theorem marks_of (code : List Asm) : (of code).marks = [] := rfl

@[simp] theorem size_of (code : List Asm) : (of code).size = Asm.total code := rfl

@[simp] theorem of_nil_append (f : Fragment) : of [] ++ f = f := by
  change Fragment.mk _ _ _ = f
  simp [funext SpanEntry.shift_zero]

@[simp] theorem append_of_nil (f : Fragment) : f ++ of [] = f := by
  change Fragment.mk _ _ _ = f
  simp

/-- Constants that are needed by code further on. -/
def needing (uses : List Value) : Fragment := { uses }

@[simp] theorem code_needing (uses : List Value) : (needing uses).code = [] := rfl

@[simp] theorem uses_needing (uses : List Value) : (needing uses).uses = uses := rfl

theorem of_append (code code' : List Asm) : of (code ++ code') = of code ++ of code' := by
  change Fragment.mk _ _ _ = Fragment.mk _ _ _
  simp

/-- The fragment with a span for the whole of it; nothing is recorded for no code. -/
def marked (f : Fragment) (span : Span) : Fragment :=
  if f.size = 0 then f else { f with marks := f.marks ++ [⟨0, f.size, span⟩] }

@[simp] theorem code_marked (f : Fragment) (span : Span) : (f.marked span).code = f.code := by
  unfold marked
  split <;> rfl

@[simp] theorem uses_marked (f : Fragment) (span : Span) : (f.marked span).uses = f.uses := by
  unfold marked
  split <;> rfl

@[simp] theorem size_marked (f : Fragment) (span : Span) : (f.marked span).size = f.size := by
  simp [size]

theorem mem_marks_marked {f : Fragment} {span : Span} {e : SpanEntry}
    (mem : e ∈ (f.marked span).marks) : e ∈ f.marks ∨ e = ⟨0, f.size, span⟩ := by
  unfold marked at mem
  split at mem
  · exact .inl mem
  · exact (List.mem_append.1 mem).imp_right List.mem_singleton.1

/-- No jump is too far for its operand. -/
def Fits (f : Fragment) : Prop := ∀ a ∈ f.code, a.distance < 65536

@[simp] theorem fits_append (f g : Fragment) : (f ++ g).Fits ↔ f.Fits ∧ g.Fits := by
  simp [Fits, or_imp, forall_and]

@[simp] theorem fits_marked (f : Fragment) (span : Span) : (f.marked span).Fits ↔ f.Fits := by
  simp [Fits]

@[simp] theorem fits_of_nil : (of []).Fits := by simp [Fits]

@[simp] theorem fits_of_cons (a : Asm) (code : List Asm) :
    (of (a :: code)).Fits ↔ a.distance < 65536 ∧ (of code).Fits := by
  simp [Fits]

end Fragment

/-- The pool after one more use of a constant. A name has one constant, other values have
one for each use. -/
def intern (pool : List Value) (v : Value) : List Value :=
  match v with
  | .name _ => if v ∈ pool then pool else pool ++ [v]
  | _ => pool ++ [v]

def internAll (pool uses : List Value) : List Value := uses.foldl intern pool

@[simp] theorem internAll_nil (pool : List Value) : internAll pool [] = pool := rfl

@[simp] theorem internAll_cons (pool : List Value) (v : Value) (uses : List Value) :
    internAll pool (v :: uses) = internAll (intern pool v) uses := rfl

@[simp] theorem internAll_append (pool uses more : List Value) :
    internAll pool (uses ++ more) = internAll (internAll pool uses) more := List.foldl_append

theorem prefix_intern (pool : List Value) (v : Value) : pool <+: intern pool v := by
  unfold intern
  split
  · split
    · exact List.prefix_rfl
    · exact List.prefix_append _ _
  · exact List.prefix_append _ _

theorem prefix_internAll (pool uses : List Value) : pool <+: internAll pool uses := by
  induction uses generalizing pool with
  | nil => exact List.prefix_rfl
  | cons v uses ih => exact (prefix_intern pool v).trans (ih _)

end StackScript
