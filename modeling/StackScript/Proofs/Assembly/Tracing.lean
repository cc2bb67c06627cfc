import StackScript.Proofs.Assembly.Outline
import StackScript.Proofs.Incremental
import StackScript.Proofs.Semantics.Statements

/-! Spans and constructs. A fragment records one span for every construct of its tree that has
code, in the order in which the constructs close, and each for whole instructions. -/

namespace StackScript

open Asm Fragment Grammar Outline

namespace Fragment

variable {f g : Fragment}

def Aligned (f : Fragment) : Prop :=
  ∀ e ∈ f.marks, ∃ (start : Nat) (inside : List Asm), Has f.code start inside ∧ e.start = start ∧
    e.stop = (start + total inside : Nat)

theorem Aligned.append (h : f.Aligned) (h' : g.Aligned) : (f ++ g).Aligned := by
  intro e mem
  rw [marks_append, List.mem_append, List.mem_map] at mem
  rw [code_append]
  rcases mem with mem | ⟨e, mem, rfl⟩
  · obtain ⟨start, inside, ⟨before, after, code, place⟩, begins, ends⟩ := h e mem
    exact ⟨start, inside, ⟨before, after ++ g.code, by simp [code], place⟩, begins, ends⟩
  · obtain ⟨start, inside, ⟨before, after, code, rfl⟩, begins, ends⟩ := h' e mem
    refine ⟨_, inside, ⟨f.code ++ before, after, by simp [code], rfl⟩, ?_, ?_⟩
    · simp only [SpanEntry.shift, begins, total_append, total_code]
      omega
    · simp only [SpanEntry.shift, ends, total_append, total_code]
      omega

theorem Aligned.marked (h : f.Aligned) (span : Span) : (f.marked span).Aligned := by
  intro e mem
  rw [code_marked]
  rcases mem_marks_marked mem with mem | rfl
  · exact h e mem
  · exact ⟨0, f.code, ⟨[], [], by simp, rfl⟩, rfl, by rw [Nat.zero_add]; rfl⟩

end Fragment

/-- A fragment whose spans are those of the constructs of an outline. -/
structure Traced (f : Fragment) (x : Outline) : Prop where
  size : x.size = f.size
  marks : x.entries 0 = f.marks
  aligned : f.Aligned

namespace Traced

variable {c f g r s : Fragment} {v w x y : Outline}

theorem of (code : List Asm) : Traced (Fragment.of code) (bytes (total code) nil) :=
  ⟨rfl, rfl, fun _ mem => nomatch mem⟩

theorem nil : Traced (Fragment.of []) nil := ⟨rfl, rfl, fun _ mem => nomatch mem⟩

theorem needing (uses : List Value) : Traced (Fragment.needing uses) .nil :=
  ⟨rfl, rfl, fun _ mem => nomatch mem⟩

theorem append (h : Traced f x) (h' : Traced g y) : Traced (f ++ g) (x ++ y) where
  size := by rw [Outline.size_append, Fragment.size_append, h.size, h'.size]
  marks := by rw [entries_append, entries_shift, marks_append, h.marks, h'.marks, h.size]
  aligned := h.aligned.append h'.aligned

theorem marked (h : Traced f x) (span : Span) : Traced (f.marked span) (.construct span x .nil) where
  size := by rw [size_marked, ← h.size]; rfl
  marks := by
    have own : (Outline.construct span x .nil).entries 0 =
        f.marks ++ if f.size = 0 then [] else [⟨0, f.size, span⟩] := by
      simp only [entries, h.marks, h.size, List.append_nil, Int.natCast_zero, Int.zero_add]
    rw [own, Fragment.marked]
    split
    · exact List.append_nil _
    · rfl
  aligned := h.aligned.marked span

theorem blaming (a : Asm) (t : Token) : Traced (Fragment.blaming a t) (Outline.blaming a t) :=
  (of [a]).marked t.span

theorem operation (op : Option Opcode) (t : Token) :
    Traced (Fragment.operation op t) (Outline.operation op t) := by
  cases op with
  | none => exact nil
  | some op => exact blaming _ _

theorem literal (t : Token) :
    Traced (Fragment.literal t) (bytes (Fragment.literal t).size .nil) := by
  unfold Fragment.literal
  split
  all_goals exact ⟨rfl, rfl, fun _ mem => nomatch mem⟩

theorem get (l : Location) (t : Token) : Traced (Fragment.get l t) (Outline.blaming (.get l) t) :=
  (needing _).append (blaming _ _)

theorem skipped (h : Traced f x) {jump : Nat → Asm} (size : ∀ n, (jump n).size = 3) :
    Traced (skipped jump (Fragment.of [.plain .pop] ++ f)) (behindJump x) := by
  have one := (of [jump (Fragment.of [.plain .pop] ++ f).size]).append ((of [.plain .pop]).append h)
  rwa [total_cons, size] at one

theorem conjunction (h : Traced f x) : Traced (conjunction f) (behindJump x) :=
  h.skipped size_jumpFalse

theorem disjunction (h : Traced f x) : Traced (disjunction f) (bytes 3 (behindJump x)) :=
  (of [.jumpFalse 3]).append (h.skipped size_jump)

theorem guarded (h : Traced c v) (h' : Traced s w) : Traced (guarded c s) (Outline.guarded v w) :=
  h.append ((of [.jumpFalse _]).append ((of [.plain .pop]).append h'))

theorem arm (h : Traced c v) (h' : Traced s w) (h'' : Traced r x) :
    Traced (arm c s r) (Outline.arm v w x) :=
  (h.guarded h').append (h''.skipped size_jump)

theorem loop (h : Traced c v) (h' : Traced s w) : Traced (loop c s) (Outline.loop v w) :=
  (h.guarded h').append ((of [.loop _]).append (of [.plain .pop]))

theorem pops (n : Nat) : Traced (pops n) (bytes n .nil) := by
  have size := size_pops n
  have all := of (List.replicate n (.plain .pop))
  rwa [← size_of, ← Fragment.pops, size] at all

theorem binding (top : Bool) (name : Text) :
    Traced (Fragment.binding top name) (Outline.binding top) := by
  cases top with
  | false => exact nil
  | true => exact (needing _).append (of [.define name])

end Traced

theorem Expr.traced (locals : List Text) (e : Expr) :
    Traced (e.fragment locals) (e.outline locals) := by
  induction e with
  | literal t => exact .literal t
  | name t => exact .get _ _
  | assign t _ e ih => exact (Traced.needing _).append (ih.append (.blaming _ _))
  | compound t op e ih =>
    exact (Traced.get _ _).append (ih.append ((Traced.operation _ _).append (.blaming _ _)))
  | group _ e _ ih => exact ih
  | unary op e ih => exact ih.append (.blaming _ _)
  | binary a op b iha ihb => exact iha.append (ihb.append (.operation _ _))
  | conditional c mark a _ b ihc iha ihb =>
    exact ihc.append (iha.append (ihb.append (.blaming _ _)))
  | and a _ b iha ihb => exact iha.append ihb.conjunction
  | or a _ b iha ihb => exact iha.append ihb.disjunction

mutual

theorem Stmt.traced (locals : List Text) :
    (s : Stmt) → Traced (s.fragment locals) (s.outline locals)
  | .print _ e _ => (e.traced locals).append (.of [.plain .print])
  | .expression e _ => (e.traced locals).append (.of [.plain .pop])
  | .branch _ c s rest => (c.traced locals).arm (s.traced locals) (rest.traced locals)
  | .loop _ c s => (c.traced locals).loop (s.traced locals)
  | .block _ ds _ => (traced_all false locals ds).append (.pops _)

theorem Rest.traced (locals : List Text) :
    (r : Rest) → Traced (r.fragment locals) (r.outline locals)
  | .done => .nil
  | .elif _ c s rest => (c.traced locals).arm (s.traced locals) (rest.traced locals)
  | .otherwise _ s => s.traced locals

theorem Decl.traced (top : Bool) (locals : List Text) :
    (d : Decl) → Traced (d.fragment top locals) (d.outline top locals)
  | .bind _ name _ => (Traced.of [.plain .pushNone]).append (.binding top name.lexeme)
  | .bindTo _ name _ e _ => (e.traced locals).append (.binding top name.lexeme)
  | .statement s => s.traced locals

theorem traced_all (top : Bool) (locals : List Text) :
    (ds : List Decl) → Traced (fragmentAll top locals ds) (outlineAll top locals ds)
  | [] => .nil
  | d :: ds => ((d.traced top locals).marked d.span).append (traced_all top _ ds)

end

/-- The offsets at which the instructions of code begin, and where the last one ends. -/
inductive Boundary (code : Array UInt8) : Nat → Prop where
  | start : Boundary code 0
  | next {offset : Nat} {i : Instruction} :
      Boundary code offset → Instruction.decode code offset = .ok i →
      Boundary code (offset + i.size)

theorem marks_program (ds : List Decl) :
    (program ds).marks = (constructsOf ds).map (·.entry) ∧ (program ds).Aligned := by
  have traced := traced_all true [] ds
  refine ⟨?_, traced.aligned.append fun _ mem => nomatch mem⟩
  rw [program, marks_append, marks_of, List.map_nil, List.append_nil, ← traced.marks]
  exact (map_entry_constructs ..).symm

variable {p : Program} {f : Fragment}

theorem Boundary.of_code (holds : p.Holds f) {passed before after : List Asm}
    (code : f.code = passed ++ (before ++ after)) (here : Boundary p.chunk.code (total passed)) :
    Boundary p.chunk.code (total (passed ++ before)) := by
  induction before generalizing passed with
  | nil => rwa [List.append_nil]
  | cons a before ih =>
    obtain ⟨n, _, decoded⟩ := Machine.decode_at holds ⟨passed, before ++ after, code, rfl⟩
    have next := here.next decoded
    have one : total (passed ++ [a]) = total passed + Instruction.size ⟨a.op, n⟩ := by
      rw [total_append]
      rfl
    rw [← one] at next
    have rest := @ih (passed ++ [a]) (by rw [code]; simp) next
    rwa [List.append_assoc] at rest

theorem Program.Holds.boundary (holds : p.Holds f) {before after : List Asm}
    (code : f.code = before ++ after) : Boundary p.chunk.code (total before) :=
  @Boundary.of_code p f holds [] before after code .start

theorem Program.Holds.size_code (holds : p.Holds f) : p.chunk.code.size = f.size := by
  rw [← Array.length_toList, holds.code.length, total_code]

theorem Program.Holds.whole (holds : p.Holds f) (aligned : f.Aligned) {start stop : Nat}
    {span : Span} (mem : ⟨start, stop, span⟩ ∈ f.marks) :
    stop ≤ p.chunk.code.size ∧ Boundary p.chunk.code start ∧ Boundary p.chunk.code stop := by
  obtain ⟨_, inside, ⟨before, after, code, rfl⟩, begins, ends⟩ := aligned _ mem
  obtain rfl : start = total before := Int.ofNat.inj begins
  obtain rfl : stop = total before + total inside := Int.ofNat.inj ends
  have size : f.size = total before + (total inside + total after) := by
    rw [← total_code, code, total_append, total_append]
  have further : f.code = before ++ inside ++ after := by rw [code, List.append_assoc]
  have last := holds.boundary further
  rw [total_append] at last
  exact ⟨by rw [holds.size_code]; omega, holds.boundary code, last⟩

end StackScript
