import StackScript.Proofs.Drafting.Bookkeeping
import StackScript.Proofs.Language
import StackScript.Proofs.ScopeBalance

/-! The constant pool. At every moment of a compilation, faults or not, a name has one constant and
the index of names knows it, every index fits its operand, and every instruction written so far
still means the constant that it was written for. A full pool takes nothing more: a new constant or
a new name is a fault, and the names that are there can be used as before. -/

namespace StackScript

open Build

namespace Draft

structure Refuses (d : Draft) : Prop where
  literal : ∀ self assignable,
    d.previous.kind = .string ∨ d.previous.kind = .int ∨ d.previous.kind = .float →
    d.previous.value?.isSome →
    (operand self assignable).run d = .error .mk (d.report d.previous .fullPool)
  unknown : ∀ self assignable, d.previous.kind = .identifier →
    d.scope.resolve? d.previous.lexeme = none → d.names[d.previous.lexeme]? = none →
    (operand self assignable).run d = .error .mk (d.report d.previous .fullPool)
  known : ∀ self assignable n, d.previous.kind = .identifier →
    d.scope.resolve? d.previous.lexeme = none → d.names[d.previous.lexeme]? = some n →
    d.current.kind.isAssignment = false →
    (operand self assignable).run d = .ok () (d.emitWideAt .getGlobal n d.previous)
  name : ∀ t : Token, (nameConstant t).run d =
    match d.names[t.lexeme]? with
    | some n => .ok n d
    | none => .error .mk (d.report t .fullPool)
  recorded : d.recovering = false → ∀ t : Token,
    (d.report t .fullPool).faults = .atSpan t.span fullPoolMessage :: d.faults

variable {d d' : Draft}

theorem run_emitConstant_of_full (full : d.chunk.hasRoom = false) (v : Value) :
    (emitConstant v).run d = .error .mk (d.report d.previous .fullPool) := by
  rw [run_emitConstant, full]
  rfl

theorem run_nameConstant_of_full (full : d.chunk.hasRoom = false) (t : Token) :
    (nameConstant t).run d =
      match d.names[t.lexeme]? with
      | some n => .ok n d
      | none => .error .mk (d.report t .fullPool) := by
  rw [run_nameConstant, full]
  rfl

theorem run_operand_of_literal (self : Level → Build Unit) (assignable : Bool)
    (kind : d.previous.kind = .string ∨ d.previous.kind = .int ∨ d.previous.kind = .float)
    (value : d.previous.value?.isSome) :
    ∃ v, (operand self assignable).run d = (emitConstant v).run d := by
  simp only [operand, act_eq, EStateM.run_bind, run_previous]
  rcases kind with kind | kind | kind
  · simp only [kind, stringLiteral]
    simp only [Token.value?, kind] at value
    split
    · exact ⟨_, rfl⟩
    · next refused => simp [refused, Except.toOption] at value
  · simp only [kind, integerLiteral]
    simp only [Token.value?, kind] at value
    split
    · exact ⟨_, rfl⟩
    · next refused => simp [refused] at value
  · simp only [kind, floatLiteral]
    simp only [Token.value?, kind] at value
    split
    · exact ⟨_, rfl⟩
    · next refused => simp [refused] at value

theorem run_place_of_global {t : Token} (global : d.scope.resolve? t.lexeme = none) :
    (place t).run d =
      match (nameConstant t).run d with
      | .ok n d => .ok (.global n) d
      | .error e d => .error e d := by
  have placed := run_place t d
  rw [global] at placed
  exact placed

theorem refuses_of_full (full : d.chunk.hasRoom = false) : d.Refuses where
  literal self assignable kind value := by
    obtain ⟨v, same⟩ := run_operand_of_literal self assignable kind value
    rw [same, run_emitConstant_of_full full]
  unknown self assignable kind global fresh := by
    have refused := run_place_of_global global
    rw [run_nameConstant_of_full full, fresh] at refused
    rw [run_operand_of_name kind, variableUse, act_eq, EStateM.run_bind, refused]
  known self assignable n kind global found plain := by
    have placed := run_place_of_global global
    rw [run_nameConstant_of_full full, found] at placed
    rw [TokenKind.isAssignment, Bool.or_eq_false_iff, decide_eq_false_iff_not,
      Option.isSome_eq_false_iff, Option.isNone_iff_eq_none] at plain
    rw [run_operand_of_name kind, variableUse, act_eq, EStateM.run_bind, placed]
    simp only [act_eq, EStateM.run_bind, run_current, plain.1, plain.2, decide_false, Bool.and_false,
      Bool.false_eq_true, if_false, ite_self]
    rfl
  name := run_nameConstant_of_full full
  recorded quiet t := by
    rw [report_of_quiet quiet]
    rfl

end Draft

/-- What is true of code and constants at a moment and after all the moments before it. An
instruction that loads a constant means the value that was added for it, one for a variable the
constant of the name that was read. -/
structure Moment.Disciplined (now : Moment) (past : List Moment) : Prop where
  names : ∀ (x : Text) (i : Nat), now.draft.names[x]? = some i ↔ now.draft.pool[i]? = some (.name x)
  once : ∀ (x : Text) (i j : Nat), now.draft.pool[i]? = some (.name x) →
    now.draft.pool[j]? = some (.name x) → i = j
  room : now.draft.pool.length ≤ Chunk.maxConstants
  covered : ∀ m m' i, Consecutive m m' (now :: past) → m.draft.chunk.code.size ≤ i →
    i < m'.draft.chunk.code.size → ∃ offset op, m.draft.Emits m'.draft offset op ∧ offset ≤ i ∧
      i ≤ offset + op.operandWidth
  constants : ∀ m m' offset, Consecutive m m' (now :: past) →
    m.draft.Emits m'.draft offset .constant → ∃ v, (∀ x, v ≠ .name x) ∧
      m'.draft.pool = m.draft.pool ++ [v] ∧ now.draft.pool[m.draft.pool.length]? = some v ∧
      Instruction.decode now.draft.chunk.code offset = .ok ⟨.constant, m.draft.pool.length⟩
  uses : ∀ m m' offset op, Consecutive m m' (now :: past) → m.draft.Emits m'.draft offset op →
    op = .getGlobal ∨ op = .setGlobal → ∃ t n, Read (now :: past) t ∧
      m'.draft.spans.back? = some ⟨offset, offset + 3, t.span⟩ ∧
      now.draft.pool[n]? = some (.name t.lexeme) ∧
      Instruction.decode now.draft.chunk.code offset = .ok ⟨op, n⟩
  definitions : ∀ m m' offset, Consecutive m m' (now :: past) →
    m.draft.Emits m'.draft offset .defGlobal → ∃ t n, ReadBehindLet (now :: past) t ∧
      now.draft.pool[n]? = some (.name t.lexeme) ∧
      Instruction.decode now.draft.chunk.code offset = .ok ⟨.defGlobal, n⟩
  closed : ∀ m ∈ past, m.draft.pool.length = Chunk.maxConstants → now.draft.pool = m.draft.pool
  refuses : now.draft.pool.length = Chunk.maxConstants → now.draft.Refuses
  muted : ∀ m m', Consecutive m m' (now :: past) → m.draft.recovering = true →
    m'.draft = m.draft.leaveBlock ∨ m'.draft = m.draft.synchronize ∨
      m'.draft = { m.draft with scope := m.draft.scope.markReady }

namespace Chronicle

variable {now m m' : Moment} {past : List Moment} {offset : Nat} {op : Opcode}

theorem loads (h : Chronicle (now :: past)) (consecutive : Consecutive m m' (now :: past))
    (emits : m.draft.Emits m'.draft offset .constant) : ∃ v, (∀ x, v ≠ .name x) ∧
      m'.draft.pool = m.draft.pool ++ [v] ∧ now.draft.pool[m.draft.pool.length]? = some v ∧
      Instruction.decode now.draft.chunk.code offset = .ok ⟨.constant, m.draft.pool.length⟩ := by
  obtain ⟨n, earlier, -, -, refers, decoded⟩ := h.refers consecutive emits rfl
  cases refers with
  | @constant v value added =>
    have there : m'.draft.pool[m.draft.pool.length]? = some v := by simp [added]
    have still := Asm.Operand.mono (a := .load v) (h.before _ consecutive.mem.2).pool there
    exact ⟨v, value, added, still, decoded⟩
  | use uses => simp at uses

theorem uses (h : Chronicle (now :: past)) (consecutive : Consecutive m m' (now :: past))
    (emits : m.draft.Emits m'.draft offset op) (uses : op = .getGlobal ∨ op = .setGlobal) :
    ∃ t n, Read (now :: past) t ∧ m'.draft.spans.back? = some ⟨offset, offset + 3, t.span⟩ ∧
      now.draft.pool[n]? = some (.name t.lexeme) ∧
      Instruction.decode now.draft.chunk.code offset = .ok ⟨op, n⟩ := by
  have addresses : op.addresses = true := by rcases uses with rfl | rfl <;> rfl
  obtain ⟨n, earlier, rfl, part, refers, decoded⟩ := h.refers consecutive emits addresses
  cases refers with
  | constant => simp at uses
  | @use op t n _ read known span =>
    exact ⟨t, n, read.mono part, span, (h.named consecutive.mem.1 known).2, decoded⟩
  | define => simp at uses

theorem defines (h : Chronicle (now :: past)) (consecutive : Consecutive m m' (now :: past))
    (emits : m.draft.Emits m'.draft offset .defGlobal) : ∃ t n, ReadBehindLet (now :: past) t ∧
      now.draft.pool[n]? = some (.name t.lexeme) ∧
      Instruction.decode now.draft.chunk.code offset = .ok ⟨.defGlobal, n⟩ := by
  obtain ⟨n, earlier, -, part, refers, decoded⟩ := h.refers consecutive emits rfl
  cases refers with
  | use uses => simp at uses
  | @define t n read known =>
    exact ⟨t, n, read.mono part, (h.named consecutive.mem.1 known).2, decoded⟩

theorem disciplined (h : Chronicle (now :: past)) : now.Disciplined past where
  names := (h.pooled now List.mem_cons_self).names
  once x i j first second := by
    have names := (h.pooled now List.mem_cons_self).names
    exact Option.some.inj (((names x i).2 first).symm.trans ((names x j).2 second))
  room := (h.pooled now List.mem_cons_self).room
  covered m m' i consecutive start stop := by
    obtain ⟨_, _, turn⟩ := h.turn consecutive
    exact turn.writes.covered start stop
  constants _ _ _ consecutive emits := h.loads consecutive emits
  uses _ _ _ _ consecutive emits uses := h.uses consecutive emits uses
  definitions _ _ _ consecutive emits := h.defines consecutive emits
  closed m mem full := (h.before m (List.mem_cons_of_mem _ mem)).full
    ((Draft.hasRoom_eq_false _).2 (Nat.le_of_eq full.symm))
  refuses full := Draft.refuses_of_full ((Draft.hasRoom_eq_false _).2 (Nat.le_of_eq full.symm))
  muted m m' consecutive recovering := by
    obtain ⟨_, _, turn⟩ := h.turn consecutive
    exact turn.muted recovering

end Chronicle

theorem History.start_kept (file : Text) (tokens : List Token) : (start file tokens).Kept := by
  obtain ⟨chunk, -, -, names⟩ := Draft.start_blank file tokens
  have pool : (Draft.start file tokens).pool = [] := congrArg (·.constants.toList) chunk
  refine ⟨.first ⟨fun x i => ?_, ?_⟩, List.forall_mem_nil _⟩
  · change (Draft.start file tokens).names[x]? = some i ↔ (Draft.start file tokens).pool[i]? = _
    simp [names, pool]
  · change (Draft.start file tokens).pool.length ≤ _
    rw [pool]
    exact Nat.zero_le _

theorem mem_diagnostics {file : Text} {tokens : List Token} {d : Draft}
    (ends : (Draft.start file tokens).finish = d.emit .finish) {e : Diagnostic}
    (mem : e ∈ d.faults) :
    ∃ es, compileTokens file tokens = .error es ∧ e ∈ es := by
  have faults : (d.emit .finish).faults = d.faults := rfl
  rw [compileTokens, ends, faults]
  cases recorded : d.faults with
  | nil =>
    rw [recorded] at mem
    cases mem
  | cons first rest =>
    rw [recorded] at mem
    exact ⟨_, rfl, List.mem_reverse.2 mem⟩

/-- The constant pool is in order at every moment of every compilation. Each `let` of the outermost
level that is not given up defines its own name, and no fault that is recorded at some moment
is lost. -/
theorem constant_pool_is_disciplined (file : Text) (tokens : List Token) :
    ∃ h, (Recorded.text (fuelFor file tokens)).run (.start file tokens) = .ok () h ∧
      (text (fuelFor file tokens)).run (Draft.start file tokens) = .ok () h.now.draft ∧
      (Draft.start file tokens).finish = h.now.draft.emit .finish ∧
      (∀ now past, now :: past <:+ h.moments → now.Disciplined past) ∧
      (∀ c ∈ h.calls, c.Defines) ∧
      ∀ m ∈ h.moments, ∀ e ∈ m.draft.faults,
        ∃ es, compileTokens file tokens = .error es ∧ e ∈ es := by
  obtain ⟨h, _, _, _, recorded, _⟩ := exists_run_text file tokens (s := History.start file tokens) rfl
  have run := run_text_eq (s := History.start file tokens) rfl recorded
  have ends := Draft.finish_of_ok run
  have quiet : (History.start file tokens).Quiet := (Draft.start_clean file tokens).2
  have kept := Arrives.text (fuelFor file tokens) (.refl (History.start_kept file tokens)) quiet
  rw [show (Recorded.text (fuelFor file tokens)).run _ = _ from recorded] at kept
  obtain ⟨onward, -, -⟩ := kept
  have chronicle := onward.kept.chronicle
  refine ⟨h, recorded, run, ends, fun now past part => (chronicle.of_suffix part).disciplined,
    onward.kept.calls, fun m mem e fault => ?_⟩
  exact mem_diagnostics ends ((chronicle.before m mem).faults.subset fault)

end StackScript
