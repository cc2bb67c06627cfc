import StackScript.Proofs.Assembly.Generation

/-! Spans of fragments. What a tree records lies within its own code, so the span that is found
for one of its instructions stays the same whatever stands before the code or behind it. -/

namespace StackScript

namespace Fragment

def Within (f : Fragment) : Prop := ∀ e ∈ f.marks, 0 ≤ e.start ∧ e.stop ≤ f.size

variable {c f g s : Fragment}

theorem Within.append (h : f.Within) (h' : g.Within) : (f ++ g).Within := by
  intro e mem
  rw [marks_append, List.mem_append, List.mem_map] at mem
  rw [size_append]
  rcases mem with mem | ⟨e, mem, rfl⟩
  · have bounds := h e mem
    omega
  · have bounds := h' e mem
    simp only [SpanEntry.shift]
    omega

theorem within_of (code : List Asm) : (of code).Within := by simp [Within]

theorem within_needing (uses : List Value) : (needing uses).Within := by
  simp [Within, needing]

theorem Within.marked (h : f.Within) (span : Span) : (f.marked span).Within := by
  intro e mem
  rw [size_marked]
  rcases mem_marks_marked mem with mem | rfl
  · exact h e mem
  · exact ⟨Int.le_refl 0, Int.le_refl _⟩

theorem within_blaming (a : Asm) (t : Token) : (blaming a t).Within := (within_of _).marked _

theorem within_operation (op : Option Opcode) (t : Token) : (operation op t).Within := by
  cases op with
  | none => exact within_of _
  | some op => exact within_blaming _ _

theorem within_literal (t : Token) : (literal t).Within := by
  unfold literal
  split
  all_goals simp [Within, constant]

theorem within_get (l : Location) (t : Token) : (get l t).Within :=
  (within_needing _).append (within_blaming _ _)

theorem within_binding (top : Bool) (name : Text) : (binding top name).Within := by
  cases top with
  | false => exact within_of _
  | true => exact (within_needing _).append (within_of _)

theorem Within.skipped (h : f.Within) (jump : Nat → Asm) : (skipped jump f).Within :=
  (within_of _).append h

theorem Within.conjunction (h : f.Within) : (conjunction f).Within :=
  ((within_of _).append h).skipped _

theorem Within.disjunction (h : f.Within) : (disjunction f).Within :=
  (within_of _).append (((within_of _).append h).skipped _)

theorem Within.guarded (h : c.Within) (h' : s.Within) : (guarded c s).Within :=
  h.append ((within_of _).append ((within_of _).append h'))

theorem Within.arm (h : c.Within) (h' : s.Within) (h'' : f.Within) : (arm c s f).Within :=
  (h.guarded h').append (((within_of _).append h'').skipped _)

theorem Within.loop (h : c.Within) (h' : s.Within) : (loop c s).Within :=
  (h.guarded h').append ((within_of _).append (within_of _))

end Fragment

open Fragment

theorem Expr.within (locals : List Text) (e : Expr) : (e.fragment locals).Within := by
  induction e with
  | literal t => exact within_literal t
  | name t => exact within_get _ _
  | assign t _ e ih => exact (within_needing _).append (ih.append (within_blaming _ _))
  | compound t op e ih =>
    exact (within_get _ _).append (ih.append ((within_operation _ _).append (within_blaming _ _)))
  | group _ e _ ih => exact ih
  | unary op e ih => exact ih.append (within_blaming _ _)
  | binary a op b iha ihb => exact iha.append (ihb.append (within_operation _ _))
  | conditional c mark a _ b ihc iha ihb =>
    exact ihc.append (iha.append (ihb.append (within_blaming _ _)))
  | and a _ b iha ihb => exact iha.append ihb.conjunction
  | or a _ b iha ihb => exact iha.append ihb.disjunction

mutual

theorem Stmt.within (locals : List Text) : (s : Stmt) → (s.fragment locals).Within
  | .print _ e _ => (e.within locals).append (within_of _)
  | .expression e _ => (e.within locals).append (within_of _)
  | .branch _ c s rest => (c.within locals).arm (s.within locals) (rest.within locals)
  | .loop _ c s => (c.within locals).loop (s.within locals)
  | .block _ ds _ => (within_all false locals ds).append (within_of _)

theorem Rest.within (locals : List Text) : (r : Rest) → (r.fragment locals).Within
  | .done => within_of _
  | .elif _ c s rest => (c.within locals).arm (s.within locals) (rest.within locals)
  | .otherwise _ s => s.within locals

theorem Decl.within (top : Bool) (locals : List Text) : (d : Decl) → (d.fragment top locals).Within
  | .bind _ name _ => (within_of _).append (within_binding top name.lexeme)
  | .bindTo _ name _ e _ => (e.within locals).append (within_binding top name.lexeme)
  | .statement s => s.within locals

theorem within_all (top : Bool) (locals : List Text) :
    (ds : List Decl) → (fragmentAll top locals ds).Within
  | [] => within_of _
  | d :: ds => ((d.within top locals).marked d.span).append (within_all top _ ds)

end

namespace SpanTable

variable {offset : Int} {entries : List SpanEntry} {best : Option SpanEntry} {e : SpanEntry}

theorem foldl_narrower_outside (outside : ∀ e ∈ entries, offset < e.start ∨ e.stop ≤ offset) :
    entries.foldl (narrower offset) best = best := by
  induction entries with
  | nil => rfl
  | cons e entries ih =>
    obtain ⟨first, others⟩ := List.forall_mem_cons.1 outside
    have skipped : narrower offset best e = best := by
      simp only [narrower, Bool.or_eq_true, decide_eq_true_eq]
      rw [if_pos first]
    rw [List.foldl_cons, skipped, ih others]

theorem extent_shift (k : Nat) (start : 0 ≤ e.start) : (e.shift k).extent = e.extent := by
  have start' : ¬ (e.shift k).start < 0 := by
    simp only [SpanEntry.shift]
    omega
  rw [SpanEntry.extent, SpanEntry.extent, if_neg start', if_neg (Int.not_lt.2 start)]
  simp only [SpanEntry.shift]
  omega

theorem narrower_shift (k : Nat) (start : 0 ≤ e.start) (starts : ∀ b ∈ best, 0 ≤ b.start) :
    narrower (offset + k) (best.map (·.shift k)) (e.shift k) =
      (narrower offset best e).map (·.shift k) := by
  have same : (offset + k < (e.shift k).start ∨ (e.shift k).stop ≤ offset + k) ↔
      (offset < e.start ∨ e.stop ≤ offset) := by
    simp only [SpanEntry.shift]
    omega
  simp only [narrower, Bool.or_eq_true, decide_eq_true_eq, same]
  split
  · rfl
  · cases best with
    | none => rfl
    | some b =>
      simp only [Option.map_some, extent_shift k start, extent_shift k (starts b rfl)]
      split <;> rfl

theorem narrower_start (start : 0 ≤ e.start) (starts : ∀ b ∈ best, 0 ≤ b.start) :
    ∀ b ∈ narrower offset best e, 0 ≤ b.start := by
  unfold narrower
  split
  · exact starts
  · cases best with
    | none => simpa using start
    | some b =>
      dsimp only
      split
      · simpa using start
      · exact starts

theorem foldl_narrower_shift (k : Nat) (ordered : ∀ e ∈ entries, 0 ≤ e.start)
    (starts : ∀ b ∈ best, 0 ≤ b.start) :
    (entries.map (·.shift k)).foldl (narrower (offset + k)) (best.map (·.shift k)) =
      (entries.foldl (narrower offset) best).map (·.shift k) := by
  induction entries generalizing best with
  | nil => rfl
  | cons e entries ih =>
    obtain ⟨first, others⟩ := List.forall_mem_cons.1 ordered
    rw [List.map_cons, List.foldl_cons, List.foldl_cons, narrower_shift k first starts]
    exact ih others (narrower_start first starts)

end SpanTable

open SpanTable

def Fragment.spanAt (f : Fragment) (offset : Nat) : Option Span :=
  (f.marks.foldl (narrower offset) none).map (·.span)

namespace Fragment

variable {f g : Fragment} {offset : Nat}

theorem spanAt_append_left (h : g.Within) (inside : offset < f.size) :
    (f ++ g).spanAt offset = f.spanAt offset := by
  unfold spanAt
  rw [marks_append, List.foldl_append, foldl_narrower_outside]
  intro e mem
  obtain ⟨e, recorded, rfl⟩ := List.mem_map.1 mem
  have bounds := h e recorded
  simp only [SpanEntry.shift]
  omega

theorem spanAt_append_right (h : f.Within) (h' : g.Within) (offset : Nat) :
    (f ++ g).spanAt (offset + f.size) = g.spanAt offset := by
  have before : f.marks.foldl (narrower (offset + f.size : Nat)) none = none := by
    refine foldl_narrower_outside fun e mem => ?_
    have bounds := h e mem
    omega
  have moved := @foldl_narrower_shift offset g.marks none f.size (fun e mem => (h' e mem).1)
    (by simp)
  unfold spanAt
  rw [marks_append, List.foldl_append, before, Int.natCast_add]
  rw [Option.map_none] at moved
  rw [moved, Option.map_map]
  rfl

end Fragment

end StackScript
