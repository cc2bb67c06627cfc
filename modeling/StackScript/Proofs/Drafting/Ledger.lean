import StackScript.Proofs.Drafting.Exact
import StackScript.Proofs.Drafting.History

/-! What single actions of a compilation write. An action appends whole instructions, or it
overwrites the operand of a jump that is still open, or it leaves the code alone; and constants are
only added. So an instruction with the index of a constant stays as it was written for the rest of
the compilation, whether there are faults or not, and the index keeps its meaning. -/

namespace StackScript

open Build

def Opcode.addresses : Opcode → Bool
  | .constant | .defGlobal | .getGlobal | .setGlobal => true
  | _ => false

theorem Opcode.addresses_eq_false {op : Opcode} (plain : op.operandWidth = 0) :
    op.addresses = false := by
  cases op <;> first | rfl | cases plain

theorem Opcode.operandWidth_of_addresses {op : Opcode} (addresses : op.addresses = true) :
    op.operandWidth = 2 := by
  cases op <;> first | rfl | cases addresses

theorem Opcode.toByte_inj {op op' : Opcode} (same : op.toByte = op'.toByte) : op = op' := by
  have both := congrArg ofByte? same
  rw [ofByte?_toByte, ofByte?_toByte] at both
  exact Option.some.inj both

namespace Draft

/-- The pool has a name where the index of names says so and nowhere else, and it is not
overfull. -/
structure Pooled (d : Draft) : Prop where
  names : ∀ (x : Text) (i : Nat), d.names[x]? = some i ↔ d.pool[i]? = some (.name x)
  room : d.pool.length ≤ Chunk.maxConstants

/-- The instructions that lead from one draft to the next, by their offsets. -/
inductive Emits (d d' : Draft) : Nat → Opcode → Prop where
  | first {op : Opcode} : d'.chunk.code[d.chunk.code.size]? = some op.toByte →
      Emits d d' d.chunk.code.size op
  | next {offset : Nat} {op op' : Opcode} : Emits d d' offset op →
      d'.chunk.code[offset + 1 + op.operandWidth]? = some op'.toByte →
      Emits d d' (offset + 1 + op.operandWidth) op'

variable {d d' : Draft} {offset : Nat} {op op' : Opcode}

theorem Emits.bounds (h : d.Emits d' offset op) :
    d.chunk.code.size ≤ offset ∧ offset < d'.chunk.code.size ∧
      d'.chunk.code[offset]? = some op.toByte := by
  induction h with
  | first byte => exact ⟨Nat.le_refl _, (Array.getElem?_eq_some_iff.1 byte).1, byte⟩
  | next _ byte ih => exact ⟨by omega, (Array.getElem?_eq_some_iff.1 byte).1, byte⟩

end Draft

/-- Bytes of instructions that need no constant. A jump back may be cut short by a fault. -/
inductive Plain : List UInt8 → Prop where
  | one {op : Opcode} {operand : List UInt8} : op.addresses = false →
      operand.length ≤ op.operandWidth → Plain (op.toByte :: operand)
  | pops (n : Nat) : Plain (List.replicate n Opcode.pop.toByte)

inductive Consecutive (m m' : Moment) : List Moment → Prop where
  | here {past : List Moment} : Consecutive m m' (m' :: m :: past)
  | before {x : Moment} {past : List Moment} : Consecutive m m' past → Consecutive m m' (x :: past)

/-- The operand at a position belongs to a jump that was written open. -/
def OpenAt (past : List Moment) (pos : Nat) : Prop :=
  ∃ m m' op, Consecutive m m' past ∧ (op = Opcode.jump ∨ op = Opcode.jumpFalse) ∧
    m'.draft = m.draft.emitOpenJump op ∧ pos = m.draft.chunk.code.size + 1

def Read (past : List Moment) (t : Token) : Prop :=
  t.kind = .identifier ∧ ∃ m ∈ past, m.draft.previous = t

def ReadBehindLet (past : List Moment) (t : Token) : Prop :=
  t.kind = .identifier ∧ ∃ m m', Consecutive m m' past ∧ m.draft.previous.kind = .kwLet ∧
    m'.draft.previous = t

/-- What an action does to code and constants. -/
inductive Draft.Writes (past : List Moment) (d d' : Draft) : Prop where
  | nothing (chunk : d'.chunk = d.chunk) (names : d'.names = d.names)
  | plain {bytes : List UInt8} (code : d'.chunk.code.toList = d.chunk.code.toList ++ bytes)
      (constants : d'.chunk.constants = d.chunk.constants) (names : d'.names = d.names)
      (plain : Plain bytes)
  | patch {pos n : Nat} (stands : OpenAt past pos) (chunk : d'.chunk = d.chunk.patchWide pos n)
      (names : d'.names = d.names)
  | name {x : Text} (fresh : d.names[x]? = none) (room : d.chunk.hasRoom = true)
      (chunk : d'.chunk = d.chunk.addConstant (.name x))
      (names : d'.names = d.names.insert x d.chunk.constants.size)
  | constant {v : Value} {line : Int} (value : ∀ x, v ≠ .name x) (room : d.chunk.hasRoom = true)
      (chunk : d'.chunk = d.chunk.writeConstant v line) (names : d'.names = d.names)
  | use {op : Opcode} {t : Token} {n : Nat} (uses : op = .getGlobal ∨ op = .setGlobal)
      (read : Read past t) (known : d.names[t.lexeme]? = some n) (emitted : d' = d.emitWideAt op n t)
  | define {t : Token} {n : Nat} (read : ReadBehindLet past t)
      (known : d.names[t.lexeme]? = some n) (emitted : d' = d.emitWide .defGlobal n)

/-- From one moment to the next. While a fault is recorded that has not been recovered from, nothing
is read or written but what ends a block or a declaration. -/
structure Draft.Turn (past : List Moment) (d d' : Draft) : Prop where
  writes : d.Writes past d'
  faults : d.faults <:+ d'.faults
  muted : d.recovering = true → d' = d.leaveBlock ∨ d' = d.synchronize ∨
    d' = { d with scope := d.scope.markReady }

inductive Chronicle : List Moment → Prop where
  | first {m : Moment} : m.draft.Pooled → Chronicle [m]
  | next {m m' : Moment} {past : List Moment} : Chronicle (m :: past) →
      m.draft.Turn (m :: past) m'.draft → Chronicle (m' :: m :: past)

theorem Consecutive.mono {m m' : Moment} {past later : List Moment} (h : Consecutive m m' past)
    (more : past <:+ later) : Consecutive m m' later := by
  obtain ⟨front, rfl⟩ := more
  induction front with
  | nil => exact h
  | cons x front ih => exact .before ih

theorem Consecutive.mem {m m' : Moment} {past : List Moment} (h : Consecutive m m' past) :
    m ∈ past ∧ m' ∈ past := by
  induction h with
  | here => simp
  | before _ ih => exact ⟨List.mem_cons_of_mem _ ih.1, List.mem_cons_of_mem _ ih.2⟩

theorem OpenAt.mono {past later : List Moment} {pos : Nat} (h : OpenAt past pos)
    (more : past <:+ later) : OpenAt later pos := by
  obtain ⟨m, m', op, consecutive, jump⟩ := h
  exact ⟨m, m', op, consecutive.mono more, jump⟩

theorem Read.mono {past later : List Moment} {t : Token} (h : Read past t) (more : past <:+ later) :
    Read later t := by
  obtain ⟨kind, m, mem, previous⟩ := h
  exact ⟨kind, m, more.subset mem, previous⟩

theorem ReadBehindLet.mono {past later : List Moment} {t : Token} (h : ReadBehindLet past t)
    (more : past <:+ later) : ReadBehindLet later t := by
  obtain ⟨kind, m, m', consecutive, behind⟩ := h
  exact ⟨kind, m, m', consecutive.mono more, behind⟩

theorem Instruction.decode_wide {code : Array UInt8} {offset n : Nat} {op : Opcode}
    (wide : op.operandWidth = 2) (small : n < 65536) (first : code[offset]? = some op.toByte)
    (second : code[offset + 1]? = some (Chunk.highByte n))
    (third : code[offset + 2]? = some (Chunk.lowByte n)) : decode code offset = .ok ⟨op, n⟩ := by
  have inside := (Array.getElem?_eq_some_iff.1 third).1
  have fits : offset + 1 + 2 ≤ code.size := by omega
  simp only [decode, first, Opcode.ofByte?_toByte, wide, if_pos fits, operandAt, second, third, Option.getD_some, Chunk.wide_bytes small]

namespace Draft

variable {d d' : Draft} {past : List Moment} {op : Opcode} {n offset : Nat}

theorem code_writeWide (op : Opcode) (n : Nat) (line line' : Int) :
    ((d.write op.toByte line).writeWide n line').chunk.code.toList =
      d.chunk.code.toList ++ [op.toByte, Chunk.highByte n, Chunk.lowByte n] := by
  simp [write, writeWide, Chunk.writeWide, Chunk.write]

theorem code_emitByteAt (d : Draft) (op : Opcode) (n : Nat) (t : Token) :
    (d.emitByteAt op n t).chunk.code.toList =
      d.chunk.code.toList ++ [op.toByte, UInt8.ofNat n] := by
  simp [emitByteAt, recordSpan, write, Chunk.write]

theorem size_appended {bytes : List UInt8}
    (code : d'.chunk.code.toList = d.chunk.code.toList ++ bytes) :
    d'.chunk.code.size = d.chunk.code.size + bytes.length := by
  rw [← Array.length_toList, code, List.length_append, Array.length_toList]

theorem getElem?_appended {bytes : List UInt8}
    (code : d'.chunk.code.toList = d.chunk.code.toList ++ bytes) (i : Nat) :
    d'.chunk.code[d.chunk.code.size + i]? = bytes[i]? := by
  rw [← Array.getElem?_toList, code, ← Array.length_toList,
    List.getElem?_append_right (Nat.le_add_right _ _), Nat.add_sub_cancel_left]

theorem size_emitWide (d : Draft) (op : Opcode) (n : Nat) :
    (d.emitWide op n).chunk.code.size = d.chunk.code.size + 3 :=
  size_appended (code_writeWide op n d.line d.line)

theorem first_emitWide (d : Draft) (op : Opcode) (n : Nat) :
    (d.emitWide op n).chunk.code[d.chunk.code.size]? = some op.toByte :=
  getElem?_appended (code_writeWide op n d.line d.line) 0

theorem back?_emitWideAt (d : Draft) (op : Opcode) (n : Nat) (t : Token) :
    (d.emitWideAt op n t).spans.back? =
      some ⟨d.chunk.code.size, d.chunk.code.size + 3, t.span⟩ := by
  have size := size_appended (code_writeWide (d := d) op n t.span.line t.span.line)
  simp only [List.length_cons, List.length_nil] at size
  rw [emitWideAt, recordSpan, SpanTable.add, size, if_neg (by omega), Array.back?_push]
  rfl

/-- What the constant is that an instruction with an index is written for. -/
inductive Refers (past : List Moment) (d d' : Draft) : Opcode → Nat → Prop where
  | constant {v : Value} : (∀ x, v ≠ .name x) → d'.pool = d.pool ++ [v] →
      Refers past d d' .constant d.pool.length
  | use {op : Opcode} {t : Token} {n : Nat} : op = .getGlobal ∨ op = .setGlobal → Read past t →
      d.names[t.lexeme]? = some n →
      d'.spans.back? = some ⟨d.chunk.code.size, d.chunk.code.size + 3, t.span⟩ →
      Refers past d d' op n
  | define {t : Token} {n : Nat} : ReadBehindLet past t → d.names[t.lexeme]? = some n →
      Refers past d d' .defGlobal n

theorem Refers.addresses (h : d.Refers past d' op n) : op.addresses = true := by
  cases h with
  | constant | define => rfl
  | use uses => rcases uses with rfl | rfl <;> rfl

/-- Code without indices is appended, or an instruction with one, or the operand of an open jump is
overwritten. -/
theorem Writes.code (h : d.Writes past d') :
    (∃ bytes, Plain bytes ∧ d'.chunk.code.toList = d.chunk.code.toList ++ bytes) ∨
      (∃ op n, d.Refers past d' op n ∧ d'.chunk.code.toList =
        d.chunk.code.toList ++ [op.toByte, Chunk.highByte n, Chunk.lowByte n]) ∨
      ∃ pos n, OpenAt past pos ∧ d'.chunk = d.chunk.patchWide pos n := by
  cases h with
  | nothing chunk _ => exact .inl ⟨_, .pops 0, by rw [chunk]; exact (List.append_nil _).symm⟩
  | name _ _ chunk _ => exact .inl ⟨_, .pops 0, by rw [chunk]; exact (List.append_nil _).symm⟩
  | plain code _ _ plain => exact .inl ⟨_, plain, code⟩
  | patch stands chunk _ => exact .inr (.inr ⟨_, _, stands, chunk⟩)
  | @constant v line value _ chunk _ =>
    exact .inr (.inl ⟨_, _,
      .constant value ((congrArg (·.constants.toList) chunk).trans Array.toList_push),
      (congrArg (·.code.toList) chunk).trans (code_writeWide
        (d := { d with chunk := d.chunk.addConstant v }) .constant _ line line)⟩)
  | use uses read known emitted =>
    exact .inr (.inl ⟨_, _, .use uses read known (emitted ▸ back?_emitWideAt ..),
      (congrArg (·.chunk.code.toList) emitted).trans (code_writeWide _ _ _ _)⟩)
  | define read known emitted =>
    exact .inr (.inl ⟨_, _, .define read known,
      (congrArg (·.chunk.code.toList) emitted).trans (code_writeWide _ _ _ _)⟩)

theorem Writes.appends (h : d.Writes past d') :
    (∃ bytes, d'.chunk.code.toList = d.chunk.code.toList ++ bytes) ∨
      ∃ pos n, OpenAt past pos ∧ d'.chunk = d.chunk.patchWide pos n := by
  rcases h.code with ⟨bytes, -, code⟩ | ⟨op, n, -, code⟩ | patch
  · exact .inl ⟨bytes, code⟩
  · exact .inl ⟨_, code⟩
  · exact .inr patch

theorem size_patchWide (c : Chunk) (pos n : Nat) : (c.patchWide pos n).code.size = c.code.size := by
  simp [Chunk.patchWide]

theorem Writes.size_le (h : d.Writes past d') : d.chunk.code.size ≤ d'.chunk.code.size := by
  rcases h.appends with ⟨bytes, code⟩ | ⟨pos, n, _, chunk⟩
  · exact Nat.le.intro (size_appended code).symm
  · exact Nat.le_of_eq (by rw [chunk, size_patchWide])

theorem Writes.pool (h : d.Writes past d') :
    d'.pool = d.pool ∨ ∃ v, d.chunk.hasRoom = true ∧ d'.pool = d.pool ++ [v] := by
  cases h with
  | nothing chunk _ => exact .inl (congrArg (·.constants.toList) chunk)
  | plain _ constants _ _ => exact .inl (congrArg Array.toList constants)
  | patch _ chunk _ => exact .inl (congrArg (·.constants.toList) chunk)
  | name _ room chunk _ =>
    exact .inr ⟨_, room, (congrArg (·.constants.toList) chunk).trans Array.toList_push⟩
  | constant _ room chunk _ =>
    exact .inr ⟨_, room, (congrArg (·.constants.toList) chunk).trans Array.toList_push⟩
  | use _ _ _ emitted => exact .inl (emitted ▸ rfl)
  | define _ _ emitted => exact .inl (emitted ▸ rfl)

theorem Pooled.of_same (h : d.Pooled) (pool : d'.pool = d.pool) (names : d'.names = d.names) :
    d'.Pooled :=
  ⟨by rw [pool, names]; exact h.names, by rw [pool]; exact h.room⟩

theorem Pooled.push (h : d.Pooled) {v : Value} (room : d.chunk.hasRoom = true)
    (pool : d'.pool = d.pool ++ [v])
    (names : ∀ x i, d'.names[x]? = some i ↔ d.names[x]? = some i ∨ i = d.pool.length ∧ v = .name x) :
    d'.Pooled := by
  rw [hasRoom_iff] at room
  refine ⟨fun x i => ?_, ?_⟩
  · rw [names, h.names, pool]
    rcases Nat.lt_trichotomy i d.pool.length with before | rfl | behind
    · rw [List.getElem?_append_left before]
      exact or_iff_left fun last => Nat.ne_of_lt before last.1
    · simp
    · rw [List.getElem?_eq_none (by omega), List.getElem?_eq_none (by simp; omega)]
      simp only [reduceCtorEq, false_or, iff_false]
      omega
  · rw [pool, List.length_append]
    exact room

theorem Writes.pooled (h : d.Writes past d') (pooled : d.Pooled) : d'.Pooled := by
  cases h with
  | nothing chunk names => exact pooled.of_same (congrArg (·.constants.toList) chunk) names
  | plain _ constants names _ => exact pooled.of_same (congrArg Array.toList constants) names
  | patch _ chunk names => exact pooled.of_same (congrArg (·.constants.toList) chunk) names
  | use _ _ _ emitted => exact pooled.of_same (emitted ▸ rfl) (emitted ▸ rfl)
  | define _ _ emitted => exact pooled.of_same (emitted ▸ rfl) (emitted ▸ rfl)
  | constant value room chunk names =>
    refine pooled.push room ((congrArg (·.constants.toList) chunk).trans Array.toList_push)
      fun x i => ?_
    rw [names]
    exact (or_iff_left fun last => value x last.2).symm
  | @name y fresh room chunk names =>
    refine pooled.push room ((congrArg (·.constants.toList) chunk).trans Array.toList_push)
      fun x i => ?_
    rw [names, Std.TreeMap.getElem?_insert]
    split
    · next same =>
      obtain rfl : y = x := Std.LawfulEqCmp.eq_of_compare same
      rw [fresh]
      simp [Draft.pool, eq_comm]
    · next other =>
      refine (or_iff_left fun last => other ?_).symm
      cases last.2
      exact Std.ReflCmp.compare_self

theorem Emits.of_one {op' : Opcode} {operand : List UInt8} (h : d.Emits d' offset op')
    (code : d'.chunk.code.toList = d.chunk.code.toList ++ op.toByte :: operand)
    (short : operand.length ≤ op.operandWidth) : offset = d.chunk.code.size ∧ op' = op := by
  have size := size_appended code
  rw [List.length_cons] at size
  induction h with
  | first byte =>
    have same := byte.symm.trans (getElem?_appended code 0)
    exact ⟨rfl, Opcode.toByte_inj (Option.some.inj same)⟩
  | next _ byte ih =>
    obtain ⟨rfl, rfl⟩ := ih
    have inside := (Array.getElem?_eq_some_iff.1 byte).1
    omega

theorem Emits.of_pops {k : Nat}
    (code : d'.chunk.code.toList = d.chunk.code.toList ++ List.replicate k Opcode.pop.toByte)
    {i : Nat} (start : d.chunk.code.size ≤ i) (stop : i < d'.chunk.code.size) : d.Emits d' i .pop := by
  have size := size_appended code
  rw [List.length_replicate] at size
  obtain ⟨i, rfl⟩ := Nat.exists_eq_add_of_le start
  have byte {i : Nat} (stop : d.chunk.code.size + i < d'.chunk.code.size) :
      d'.chunk.code[d.chunk.code.size + i]? = some Opcode.pop.toByte := by
    rw [getElem?_appended code, List.getElem?_replicate, if_pos (by omega)]
  induction i with
  | zero => exact .first (byte stop)
  | succ i ih =>
    exact .next (ih (Nat.le_add_right _ _) (Nat.lt_of_succ_lt stop)) (byte stop)

theorem Emits.of_plain {bytes : List UInt8} (h : d.Emits d' offset op)
    (code : d'.chunk.code.toList = d.chunk.code.toList ++ bytes) (plain : Plain bytes) :
    op.addresses = false := by
  cases plain with
  | one harmless short =>
    obtain ⟨-, rfl⟩ := h.of_one code short
    exact harmless
  | pops n =>
    obtain ⟨behind, _, byte⟩ := h.bounds
    obtain ⟨i, rfl⟩ := Nat.exists_eq_add_of_le behind
    rw [getElem?_appended code] at byte
    have pop := List.eq_of_mem_replicate (List.mem_of_getElem? byte)
    rw [Opcode.toByte_inj pop]
    rfl

theorem covered_of_one {operand : List UInt8} {i : Nat}
    (code : d'.chunk.code.toList = d.chunk.code.toList ++ op.toByte :: operand)
    (short : operand.length ≤ op.operandWidth) (start : d.chunk.code.size ≤ i)
    (stop : i < d'.chunk.code.size) :
    ∃ offset op, d.Emits d' offset op ∧ offset ≤ i ∧ i ≤ offset + op.operandWidth := by
  have size := size_appended code
  rw [List.length_cons] at size
  exact ⟨_, op, .first (getElem?_appended code 0), start, by omega⟩

theorem Writes.covered (h : d.Writes past d') {i : Nat} (start : d.chunk.code.size ≤ i)
    (stop : i < d'.chunk.code.size) :
    ∃ offset op, d.Emits d' offset op ∧ offset ≤ i ∧ i ≤ offset + op.operandWidth := by
  rcases h.code with ⟨bytes, plain, code⟩ | ⟨op, n, refers, code⟩ | ⟨pos, n, -, chunk⟩
  · cases plain with
    | one _ short => exact covered_of_one code short start stop
    | pops k => exact ⟨i, .pop, .of_pops code start stop, Nat.le_refl _, Nat.le_add_right _ _⟩
  · have wide := Opcode.operandWidth_of_addresses refers.addresses
    exact covered_of_one code (Nat.le_of_eq wide.symm) start stop
  · rw [chunk, size_patchWide] at stop
    omega

theorem Writes.refers (h : d.Writes past d') (emits : d.Emits d' offset op)
    (addresses : op.addresses = true) :
    ∃ n, offset = d.chunk.code.size ∧ d.Refers past d' op n ∧ d'.chunk.code.toList =
      d.chunk.code.toList ++ [op.toByte, Chunk.highByte n, Chunk.lowByte n] := by
  rcases h.code with ⟨bytes, plain, code⟩ | ⟨op', n, refers, code⟩ | ⟨pos, n, -, chunk⟩
  · cases (emits.of_plain code plain).symm.trans addresses
  · have wide := Opcode.operandWidth_of_addresses refers.addresses
    obtain ⟨rfl, rfl⟩ := emits.of_one code (Nat.le_of_eq wide.symm)
    exact ⟨n, rfl, refers, code⟩
  · obtain ⟨behind, inside, -⟩ := emits.bounds
    rw [chunk, size_patchWide] at inside
    omega

theorem Refers.lt (h : d.Refers past d' op n) (pooled : d.Pooled) (pooled' : d'.Pooled) :
    n < Chunk.maxConstants := by
  cases h with
  | constant _ more =>
    have room := pooled'.room
    rwa [more, List.length_append] at room
  | use _ _ known _ | define _ known =>
    have inside := (List.getElem?_eq_some_iff.1 ((pooled.names _ _).1 known)).1
    exact Nat.lt_of_lt_of_le inside pooled.room

structure Before (d d' : Draft) : Prop where
  size : d.chunk.code.size ≤ d'.chunk.code.size
  pool : d.pool <+: d'.pool
  full : d.chunk.hasRoom = false → d'.pool = d.pool
  faults : d.faults <:+ d'.faults

theorem Before.refl (d : Draft) : d.Before d :=
  ⟨Nat.le_refl _, List.prefix_rfl, fun _ => rfl, List.suffix_rfl⟩

theorem hasRoom_eq_false (d : Draft) :
    d.chunk.hasRoom = false ↔ Chunk.maxConstants ≤ d.pool.length := by
  rw [← Bool.not_eq_true, hasRoom_iff, Nat.not_lt]

theorem Before.trans {d'' : Draft} (h : d.Before d') (h' : d'.Before d'') : d.Before d'' where
  size := Nat.le_trans h.size h'.size
  pool := h.pool.trans h'.pool
  full full := by
    have same := h.full full
    rw [hasRoom_eq_false, ← same, ← hasRoom_eq_false] at full
    exact (h'.full full).trans same
  faults := h.faults.trans h'.faults

theorem Turn.before (h : d.Turn past d') : d.Before d' where
  size := h.writes.size_le
  pool := by
    rcases h.writes.pool with same | ⟨v, _, more⟩
    · exact same ▸ List.prefix_rfl
    · exact more ▸ List.prefix_append _ _
  full full := by
    rcases h.writes.pool with same | ⟨v, room, _⟩
    · exact same
    · cases full.symm.trans room
  faults := h.faults

end Draft

namespace Chronicle

variable {now m m' b b' : Moment} {past ms : List Moment}

theorem pooled (h : Chronicle ms) : ∀ m ∈ ms, m.draft.Pooled := by
  induction h with
  | first pooled => exact List.forall_mem_singleton.2 pooled
  | next _ turn ih =>
    exact List.forall_mem_cons.2 ⟨turn.writes.pooled (ih _ List.mem_cons_self), ih⟩

theorem of_suffix (h : Chronicle ms) (part : now :: past <:+ ms) : Chronicle (now :: past) := by
  induction h with
  | first pooled =>
    rcases List.suffix_cons_iff.1 part with whole | none
    · rw [whole]
      exact .first pooled
    · cases List.suffix_nil.1 none
  | next before turn ih =>
    rcases List.suffix_cons_iff.1 part with whole | part
    · rw [whole]
      exact .next before turn
    · exact ih part

theorem before (h : Chronicle (now :: past)) : ∀ m ∈ now :: past, m.draft.Before now.draft := by
  induction past generalizing now with
  | nil => exact List.forall_mem_singleton.2 (.refl _)
  | cons m past ih =>
    cases h with
    | next before turn =>
      exact List.forall_mem_cons.2 ⟨.refl _, fun x mem => (ih before x mem).trans turn.before⟩

theorem turn (h : Chronicle ms) (consecutive : Consecutive m m' ms) :
    ∃ past, m :: past <:+ ms ∧ m.draft.Turn (m :: past) m'.draft := by
  induction consecutive with
  | here =>
    cases h with
    | next _ turn => exact ⟨_, List.suffix_cons _ _, turn⟩
  | @before x past consecutive ih =>
    cases past with
    | nil => cases consecutive
    | cons y past =>
      obtain ⟨earlier, part, turn⟩ := ih (h.of_suffix (List.suffix_cons _ _))
      exact ⟨earlier, part.trans (List.suffix_cons _ _), turn⟩

theorem order (h : Chronicle ms) (first : Consecutive m m' ms) (second : Consecutive b b' ms) :
    (m = b ∧ m' = b') ∨ m'.draft.chunk.code.size ≤ b.draft.chunk.code.size ∨
      b'.draft.chunk.code.size ≤ m.draft.chunk.code.size := by
  induction first with
  | here =>
    cases second with
    | here => exact .inl ⟨rfl, rfl⟩
    | before second =>
      have earlier := h.of_suffix (List.suffix_cons _ _)
      exact .inr (.inr (earlier.before _ second.mem.2).size)
  | @before x past first ih =>
    cases second with
    | here =>
      have earlier := h.of_suffix (List.suffix_cons _ _)
      exact .inr (.inl (earlier.before _ first.mem.2).size)
    | before second =>
      cases past with
      | nil => cases first
      | cons y past => exact ih (h.of_suffix (List.suffix_cons _ _)) second

theorem kept (h : Chronicle (now :: past)) (consecutive : Consecutive m m' (now :: past))
    {op : Opcode}
    (byte : m'.draft.chunk.code[m.draft.chunk.code.size]? = some op.toByte)
    (steady : op ≠ .jump ∧ op ≠ .jumpFalse) {i : Nat} (start : m.draft.chunk.code.size ≤ i)
    (stop : i < m'.draft.chunk.code.size) :
    now.draft.chunk.code[i]? = m'.draft.chunk.code[i]? := by
  induction past generalizing now with
  | nil => cases consecutive with | before none => cases none
  | cons y past ih =>
    cases consecutive with
    | here => rfl
    | before consecutive =>
      cases h with
      | next earlier turn =>
        rw [← ih earlier consecutive]
        rcases turn.writes.appends with
          ⟨bytes, code⟩ | ⟨pos, n, ⟨b, b', op', written, jump, opened, rfl⟩, chunk⟩
        · have inside := (earlier.before _ consecutive.mem.2).size
          rw [← Array.getElem?_toList, code, List.getElem?_append_left (by simp; omega),
            Array.getElem?_toList]
        · have apart : i ≠ b.draft.chunk.code.size + 1 ∧ i ≠ b.draft.chunk.code.size + 1 + 1 := by
            have size := congrArg (·.chunk.code.size) opened
            rw [Draft.emitOpenJump, Draft.size_emitWide] at size
            rcases earlier.order consecutive written with ⟨rfl, rfl⟩ | first | first
            · -- the instruction is no jump
              rw [opened, Draft.emitOpenJump, Draft.first_emitWide] at byte
              obtain rfl := Opcode.toByte_inj (Option.some.inj byte)
              exact absurd jump (by simp [steady])
            · omega
            · omega
          rw [chunk, Chunk.patchWide, Array.getElem?_setIfInBounds_ne apart.2.symm,
            Array.getElem?_setIfInBounds_ne apart.1.symm]

/-- An instruction with the index of a constant is decoded at every later moment as it was
written. -/
theorem refers (h : Chronicle (now :: past)) (consecutive : Consecutive m m' (now :: past))
    {offset : Nat} {op : Opcode} (emits : m.draft.Emits m'.draft offset op)
    (addresses : op.addresses = true) :
    ∃ n earlier, offset = m.draft.chunk.code.size ∧ m :: earlier <:+ now :: past ∧
      m.draft.Refers (m :: earlier) m'.draft op n ∧
      Instruction.decode now.draft.chunk.code offset = .ok ⟨op, n⟩ := by
  obtain ⟨earlier, part, turn⟩ := h.turn consecutive
  obtain ⟨n, rfl, refers, code⟩ := turn.writes.refers emits addresses
  have small := refers.lt (h.pooled _ consecutive.mem.1) (h.pooled _ consecutive.mem.2)
  have byte (i : Nat) (short : i < 3) : now.draft.chunk.code[m.draft.chunk.code.size + i]? =
      [op.toByte, Chunk.highByte n, Chunk.lowByte n][i]? := by
    have size := Draft.size_appended code
    simp only [List.length_cons, List.length_nil] at size
    rw [h.kept consecutive emits.bounds.2.2 (by cases op <;> simp_all [Opcode.addresses]) (by omega)
      (by omega), Draft.getElem?_appended code]
  exact ⟨n, earlier, rfl, part, refers, Instruction.decode_wide
    (Opcode.operandWidth_of_addresses addresses) small (byte 0 (by omega)) (byte 1 (by omega))
    (byte 2 (by omega))⟩

theorem named (h : Chronicle (now :: past)) (mem : m ∈ now :: past) {x : Text} {n : Nat}
    (known : m.draft.names[x]? = some n) :
    now.draft.names[x]? = some n ∧ now.draft.pool[n]? = some (.name x) := by
  have stands := ((h.pooled m mem).names x n).1 known
  have still := Asm.Operand.mono (a := .define x) (h.before m mem).pool stands
  exact ⟨((h.pooled now List.mem_cons_self).names x n).2 still, still⟩

end Chronicle

end StackScript
