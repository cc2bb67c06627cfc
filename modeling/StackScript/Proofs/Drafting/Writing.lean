import StackScript.Proofs.Assembly.Generation

/-! What the steps of a compilation write. A draft is compared with an earlier one: the
bytes between them are those of a fragment, and pool and spans have grown by what the
fragment needs and records. -/

namespace StackScript

open Build Asm

namespace Draft

def pool (d : Draft) : List Value := d.chunk.constants.toList

/-- The index of names is that of the pool, and the pool is not overfull. -/
structure Ready (d : Draft) : Prop where
  room : d.pool.length ≤ Chunk.maxConstants
  known : ∀ ⦃x : Text⦄ ⦃i : Nat⦄, d.names[x]? = some i → d.pool[i]? = some (.name x)
  unknown : ∀ ⦃x : Text⦄, d.names[x]? = none → .name x ∉ d.pool

theorem Ready.of_same {d d' : Draft} (ready : d.Ready) (pool : d'.pool = d.pool)
    (names : d'.names = d.names) : d'.Ready := by
  refine ⟨?_, ?_, ?_⟩
  all_goals rw [pool]
  · exact ready.room
  · rw [names]
    exact ready.known
  · rw [names]
    exact ready.unknown

end Draft

/-- The second draft is the first one with a fragment behind it. -/
structure Drafted (d d' : Draft) (f : Fragment) : Prop where
  ready : d'.Ready
  code : ∃ bytes, d'.chunk.code.toList = d.chunk.code.toList ++ bytes ∧
    Assembles d'.pool f.code bytes
  pool : d'.pool = internAll d.pool f.uses
  spans : d'.spans.toList = d.spans.toList ++ f.marks.map (·.shift d.chunk.code.size)

namespace Drafted

variable {d d₁ d₂ : Draft} {f g : Fragment}

theorem of_same (ready : d.Ready) (chunk : d₁.chunk = d.chunk) (names : d₁.names = d.names)
    (spans : d₁.spans = d.spans) : Drafted d d₁ (.of []) := by
  have pool : d₁.pool = d.pool := congrArg (·.constants.toList) chunk
  exact ⟨ready.of_same pool names, ⟨[], by simp [chunk], rfl⟩, pool, by simp [spans]⟩

theorem refl (ready : d.Ready) : Drafted d d (.of []) := of_same ready rfl rfl rfl

theorem advance (ready : d.Ready) : Drafted d d.advance (.of []) ∧ d.advance.scope = d.scope :=
  ⟨.of_same ready d.advance_chunk d.advance_names d.advance_spans, d.advance_scope⟩

theorem size (h : Drafted d d₁ f) : d₁.chunk.code.size = d.chunk.code.size + f.size := by
  obtain ⟨bytes, code, assembles⟩ := h.code
  have lengths := congrArg List.length code
  rwa [List.length_append, assembles.length] at lengths

theorem grows (h : Drafted d d₁ f) : d.pool <+: d₁.pool := h.pool ▸ prefix_internAll _ _

theorem trans (h : Drafted d d₁ f) (h' : Drafted d₁ d₂ g) : Drafted d d₂ (f ++ g) where
  ready := h'.ready
  code := by
    obtain ⟨bytes, code, assembles⟩ := h.code
    obtain ⟨bytes', code', assembles'⟩ := h'.code
    exact ⟨bytes ++ bytes', by rw [code', code, List.append_assoc],
      (assembles.mono h'.grows).append assembles'⟩
  pool := by rw [h'.pool, h.pool, Fragment.uses_append, internAll_append]
  spans := by
    rw [h'.spans, h.spans, h.size, Fragment.marks_append, List.map_append, List.map_map,
      List.append_assoc]
    simp only [List.append_cancel_left_eq]
    exact List.map_congr_left fun e _ => (e.shift_shift _ _).symm

theorem of_bytes {a : Asm} (bytes : List UInt8) (ready : d.Ready)
    (code : d₁.chunk.code.toList = d.chunk.code.toList ++ bytes) (encodes : a.Encodes d.pool bytes)
    (constants : d₁.chunk.constants = d.chunk.constants) (names : d₁.names = d.names)
    (spans : d₁.spans = d.spans) : Drafted d d₁ (.of [a]) := by
  have pool : d₁.pool = d.pool := congrArg Array.toList constants
  refine ⟨ready.of_same pool names, ⟨bytes, code, ?_⟩, pool, by simp [spans]⟩
  rw [pool]
  exact .single encodes

theorem recordSpan (h : Drafted d d₁ f) (span : Span) :
    Drafted d (d₁.recordSpan d.chunk.code.size span) (f.marked span) where
  ready := h.ready.of_same rfl rfl
  code := by
    rw [Fragment.code_marked]
    exact h.code
  pool := by
    rw [Fragment.uses_marked]
    exact h.pool
  spans := by
    have size := h.size
    simp only [Draft.recordSpan, SpanTable.add, Fragment.marked]
    by_cases empty : f.size = 0
    · rw [if_pos (by omega), if_pos empty]
      exact h.spans
    · rw [if_neg (by omega), if_neg empty, Array.toList_push, h.spans]
      simp [SpanEntry.shift, size]
      omega

theorem encodes_plain {op : Opcode} (plain : op.operandWidth = 0) (pool : List Value) :
    (Asm.plain op).Encodes pool [op.toByte] := by
  refine ⟨0, plain, ?_, ?_⟩
  · simp only [Asm.op, plain]
    decide
  · simp only [Asm.op, plain]
    rfl

theorem encodes_wide {a : Asm} {n : Nat} {pool : List Value} (wide : a.op.operandWidth = 2)
    (stands : a.Operand pool n) (small : n < 65536) :
    a.Encodes pool [a.op.toByte, Chunk.highByte n, Chunk.lowByte n] := by
  refine ⟨n, stands, ?_, ?_⟩
  · rw [wide]
    exact small
  · rw [wide]
    rfl

theorem emit (ready : d.Ready) {op : Opcode} (plain : op.operandWidth = 0) :
    Drafted d (d.emit op) (.of [.plain op]) :=
  of_bytes _ ready Array.toList_push (encodes_plain plain _) rfl rfl rfl

theorem emitAt (ready : d.Ready) {op : Opcode} (plain : op.operandWidth = 0) (t : Token) :
    Drafted d (d.emitAt op t) (.blaming (.plain op) t) :=
  have written : Drafted d (d.write op.toByte t.span.line) (.of [.plain op]) :=
    of_bytes _ ready Array.toList_push (encodes_plain plain _) rfl rfl rfl
  written.recordSpan t.span

theorem writeWide (ready : d.Ready) {a : Asm} {n : Nat} (line : Int) (wide : a.op.operandWidth = 2)
    (stands : a.Operand d.pool n) (small : n < 65536) :
    Drafted d ((d.write a.op.toByte line).writeWide n line) (.of [a]) := by
  refine of_bytes _ ready ?_ (encodes_wide wide stands small) rfl rfl rfl
  simp [Draft.writeWide, Draft.write, Chunk.writeWide, Chunk.write]

theorem emitWideAt (ready : d.Ready) {a : Asm} {n : Nat} (wide : a.op.operandWidth = 2)
    (stands : a.Operand d.pool n) (small : n < 65536) (t : Token) :
    Drafted d (d.emitWideAt a.op n t) (.blaming a t) :=
  (writeWide ready t.span.line wide stands small).recordSpan t.span

theorem emitByteAt (ready : d.Ready) {a : Asm} {n : Nat} (narrow : a.op.operandWidth = 1)
    (stands : a.Operand d.pool n) (small : n < 256) (t : Token) :
    Drafted d (d.emitByteAt a.op n t) (.blaming a t) := by
  have encodes : a.Encodes d.pool [a.op.toByte, UInt8.ofNat n] := by
    refine ⟨n, stands, ?_, ?_⟩
    · rw [narrow]
      exact small
    · rw [narrow]
      rfl
  have written : Drafted d ((d.write a.op.toByte t.span.line).write (UInt8.ofNat n) t.span.line)
      (.of [a]) := by
    refine of_bytes _ ready ?_ encodes rfl rfl rfl
    simp [Draft.write, Chunk.write]
  exact written.recordSpan t.span

theorem addConstant {v : Value} (room : d.pool.length < Chunk.maxConstants)
    (fresh : intern d.pool v = d.pool ++ [v]) (names : Std.TreeMap Text Nat compare)
    (known : ∀ ⦃x : Text⦄ ⦃i : Nat⦄, names[x]? = some i → (d.pool ++ [v])[i]? = some (.name x))
    (unknown : ∀ ⦃x : Text⦄, names[x]? = none → .name x ∉ d.pool ++ [v]) :
    Drafted d { d with chunk := d.chunk.addConstant v, names } (.needing [v]) := by
  have pool : ({ d with chunk := d.chunk.addConstant v, names } : Draft).pool = d.pool ++ [v] :=
    Array.toList_push
  refine ⟨⟨?_, ?_, ?_⟩, ⟨[], (List.append_nil _).symm, rfl⟩, ?_, (List.append_nil _).symm⟩
  · rw [pool, List.length_append]
    exact room
  · rw [pool]
    exact known
  · rw [pool]
    exact unknown
  · rw [pool, ← fresh]
    rfl

theorem patch {a a' : Asm} {post : Fragment} (h : Drafted d d₁ (f ++ (.of [a] ++ post)))
    (op : a'.op = a.op) (wide : a.op.operandWidth = 2) (stands : a'.Operand d₁.pool post.size)
    (small : post.size < 65536) :
    Drafted d { d₁ with chunk := d₁.chunk.patchWide (d.chunk.code.size + f.size + 1) post.size }
      (f ++ (.of [a'] ++ post)) where
  ready := h.ready.of_same rfl rfl
  code := by
    obtain ⟨bytes, code, assembles⟩ := h.code
    refine ⟨_, ?_, assembles.patch op wide stands small⟩
    simp only [Chunk.patchWide, Array.toList_setIfInBounds, code]
    rw [List.set_append_right _ _ (by simp; omega), List.set_append_right _ _ (by simp; omega)]
    simp only [Array.length_toList, Fragment.size]
    congr 3
    all_goals omega
  pool := h.pool
  spans := by
    have size : (Fragment.of [a']).size = (Fragment.of [a]).size := by simp [Asm.size, op]
    rw [h.spans]
    simp only [Fragment.marks_append, size]
    rfl

end Drafted

end StackScript
