import StackScript.Proofs.Machine.Strict
import StackScript.Proofs.Machine.Symbolic

/-! Code of any kind is contained. Whatever bytes a program consists of and whatever its tables
say, its run reads nothing that is not there, and it ends by success or by a failure that names
the instruction it arose in. -/

namespace StackScript

theorem Instruction.decode_cases (code : Array UInt8) (offset : Nat) :
    (code.size ≤ offset ∧ decode code offset = .error .pastEnd) ∨
      (∃ b, code[offset]? = some b ∧ decode code offset = .error (.reserved b)) ∨
      (∃ op, code[offset]? = some op.toByte ∧ decode code offset = .error (.truncated op)) ∨
      ∃ i, code[offset]? = some i.op.toByte ∧ decode code offset = .ok i := by
  unfold decode
  cases found : code[offset]? with
  | none => exact .inl ⟨Array.getElem?_eq_none_iff.1 found, rfl⟩
  | some b =>
    cases known : Opcode.ofByte? b with
    | none => exact .inr (.inl ⟨b, rfl, by simp only [known]⟩)
    | some op =>
      have byte := Opcode.toByte_of_ofByte? known
      by_cases whole : offset + 1 + op.operandWidth ≤ code.size
      · refine .inr (.inr (.inr ⟨⟨op, operandAt code (offset + 1) op.operandWidth⟩, ?_, ?_⟩))
        · exact congrArg some byte.symm
        · simp only [known, if_pos whole]
      · exact .inr (.inr (.inl ⟨op, congrArg some byte.symm, by simp only [known, if_neg whole]⟩))

namespace Machine

theorem fetch_cases (c : Chunk) (m : Machine) :
    (c.code.size ≤ m.ip ∧ m.fetch c = .ended) ∨
      (∃ b fault, c.code[m.ip]? = some b ∧ m.fetch c = .refused b fault) ∨
      ∃ i, c.code[m.ip]? = some i.op.toByte ∧ m.fetch c = .ready i := by
  rcases Instruction.decode_cases c.code m.ip with
    ⟨past, decoded⟩ | ⟨b, found, decoded⟩ | ⟨op, found, decoded⟩ | ⟨i, found, decoded⟩
  · exact .inl ⟨past, by simp only [fetch, decoded]⟩
  · exact .inr (.inl ⟨b, .reservedByte b, found, by simp only [fetch, decoded]⟩)
  · exact .inr (.inl ⟨op.toByte, .truncated op, found, by simp only [fetch, decoded]⟩)
  · simp only [fetch, decoded]
    split
    · exact .inr (.inl ⟨_, _, found, rfl⟩)
    · split
      · exact .inr (.inl ⟨_, _, found, rfl⟩)
      · split
        · exact .inr (.inl ⟨_, _, found, rfl⟩)
        · exact .inr (.inr ⟨i, found, rfl⟩)

variable {σ : Type} {host : Host σ} {p : Program} {c : Chunk} {m m' : Machine} {i : Instruction}
  {x : Machine × σ} {s : σ} {e : RuntimeError}

theorem byte_of_ready (fetched : m.fetch c = .ready i) : c.code[m.ip]? = some i.op.toByte := by
  rcases fetch_cases c m with ⟨_, other⟩ | ⟨b, fault, _, other⟩ | ⟨j, byte, same⟩
  · cases fetched.symm.trans other
  · cases fetched.symm.trans other
  · cases fetched.symm.trans same
    exact byte

theorem byte_of_refused {b : UInt8} {fault : MachineFault} (fetched : m.fetch c = .refused b fault) :
    c.code[m.ip]? = some b := by
  rcases fetch_cases c m with ⟨_, other⟩ | ⟨b, fault, byte, same⟩ | ⟨j, _, other⟩
  · cases fetched.symm.trans other
  · cases fetched.symm.trans same
    exact byte
  · cases fetched.symm.trans other

theorem past_of_ended (fetched : m.fetch c = .ended) : c.code.size ≤ m.ip := by
  rcases fetch_cases c m with ⟨past, _⟩ | ⟨b, fault, _, other⟩ | ⟨j, _, other⟩
  · exact past
  · cases fetched.symm.trans other
  · cases fetched.symm.trans other

def Quiet : Effect → Prop
  | .next _ | .fault _ _ => True
  | .print _ _ | .finish _ => False

theorem quiet_binary (f : Value → Value → Except OperatorFault Value) : Quiet (m.binary f) := by
  unfold binary
  dsimp only
  split <;> trivial

theorem quiet_unary (f : Value → Except OperatorFault Value) : Quiet (m.unary f) := by
  unfold unary
  dsimp only
  split <;> trivial

theorem quiet_withName {k : Text → Machine → Effect} (index : Nat)
    (quiet : ∀ name, Quiet (k name m)) : Quiet (m.withName c index k) := by
  unfold withName
  split
  · trivial
  · exact quiet _
  · trivial

theorem perform_cases (c : Chunk) (i : Instruction) (m : Machine) :
    Quiet (m.perform c i) ∨ (i.op = .print ∧ ∃ line, m.perform c i = .print line m.drop) ∨
      (i.op = .finish ∧ m.perform c i = .finish m) := by
  obtain ⟨op, n⟩ := i
  cases op with
  | print => exact .inr (.inl ⟨rfl, _, rfl⟩)
  | finish => exact .inr (.inr ⟨rfl, rfl⟩)
  | pushNone | pushTrue | pushFalse | pop | ternary | jump | jumpFalse => exact .inl trivial
  | add | subtract | multiply | divide | equals | notEquals => exact .inl (quiet_binary _)
  | less | lessEquals | greater | greaterEquals => exact .inl (quiet_binary _)
  | negate => exact .inl (quiet_unary Value.negate)
  | not => exact .inl (quiet_unary fun v => .ok v.not)
  | constant =>
    simp only [perform]
    split <;> exact .inl trivial
  | defGlobal => exact .inl (quiet_withName n fun _ => trivial)
  | getGlobal =>
    refine .inl (quiet_withName n fun name => ?_)
    unfold getGlobal
    split <;> trivial
  | setGlobal =>
    refine .inl (quiet_withName n fun name => ?_)
    unfold setGlobal
    split <;> trivial
  | getLocal =>
    simp only [perform, getLocal]
    split <;> exact .inl trivial
  | setLocal =>
    simp only [perform, setLocal]
    split <;> exact .inl trivial
  | loop =>
    simp only [perform, loopBack]
    split <;> exact .inl trivial

theorem op_of_print {line : Text} (executed : m.execute c i = .print line m') : i.op = .print := by
  unfold execute at executed
  rcases perform_cases c i { m with ip := m.ip + i.size, count := m.count + 1 } with
    quiet | ⟨op, _⟩ | ⟨_, finish⟩
  · rw [executed] at quiet
    exact quiet.elim
  · exact op
  · cases executed.symm.trans finish

theorem op_of_finish (executed : m.execute c i = .finish m') : i.op = .finish := by
  unfold execute at executed
  rcases perform_cases c i { m with ip := m.ip + i.size, count := m.count + 1 } with
    quiet | ⟨_, line, print⟩ | ⟨op, _⟩
  · rw [executed] at quiet
    exact quiet.elim
  · cases executed.symm.trans print
  · exact op

/-- The host refused the line that is printed at a stage with a failure of its own. -/
def Refused (host : Host σ) (p : Program) (x : Machine × σ) (e : RuntimeError) : Prop :=
  ∃ i line m', x.1.fetch p.chunk = .ready i ∧ x.1.execute p.chunk i = .print line m' ∧
    (host.write m' line (host.trace p x.1 i x.2)).1 = .error (.failure e)

/-- What becomes of a run with so much fuel: it goes on, it succeeds at the end of the code or at the
instruction that ends programs, or it fails. The failure belongs to the instruction where the run
stopped, unless the host brought it in, and leaves an empty stack. -/
inductive Contained (host : Host σ) (p : Program) (start : Machine × σ) (fuel : Nat) :
    Ending × Machine × σ → Prop where
  | goesOn {m : Machine} {s : σ} : Steps host p fuel start (m, s) →
      Contained host p start fuel (.unfinished, m, s)
  | succeeds {n : Nat} {x : Machine × σ} {m : Machine} {s : σ} : Steps host p n start x →
      Stops host p x (.finished, m, s) →
      (p.chunk.code.size ≤ x.1.ip ∨ p.chunk.code[x.1.ip]? = some Opcode.finish.toByte) →
      Contained host p start fuel (.finished, m, s)
  | fails {n : Nat} {x : Machine × σ} {m m' : Machine} {s : σ} {e : RuntimeError} :
      Steps host p n start x → Stops host p x (.failed e, m', s) →
      (e.ip = x.1.ip ∧ p.chunk.code[x.1.ip]? = some e.op ∨ Refused host p x e) →
      m.stack = #[] → Contained host p start fuel (.failed e, m, s)

theorem Stops.finished (stops : Stops host p x (.finished, m, s)) :
    p.chunk.code.size ≤ x.1.ip ∨ p.chunk.code[x.1.ip]? = some Opcode.finish.toByte := by
  cases stops with
  | ended fetched => exact .inl (past_of_ended fetched)
  | finish fetched executed =>
    rw [byte_of_ready fetched, op_of_finish executed]
    exact .inr rfl

theorem Stops.failed (stops : Stops host p x (.failed e, m, s)) :
    e.ip = x.1.ip ∧ p.chunk.code[x.1.ip]? = some e.op ∨ Refused host p x e := by
  cases stops with
  | refused fetched => exact .inl ⟨rfl, byte_of_refused fetched⟩
  | fault fetched executed => exact .inl ⟨rfl, byte_of_ready fetched⟩
  | @write _ _ _ _ i line fault fetched executed written =>
    cases fault with
    | message text =>
      rw [byte_of_ready fetched, op_of_print executed]
      exact .inl ⟨rfl, rfl⟩
    | failure e => exact .inr ⟨i, line, _, fetched, executed, congrArg Prod.fst written⟩

/-- Code of any kind is contained: at every stage of its run all that is read is there, and the run
goes on, succeeds, or fails at an instruction. -/
theorem arbitrary_code_is_contained (host : Host σ) (p : Program) (m : Machine) (s : σ) :
    (∀ n x, Steps host p n (m.load p, s) x →
        Strict.step p.chunk x.1 = some (x.1.turn p.chunk)) ∧
      ∀ fuel, Contained host p (m.load p, s) fuel (run host fuel p m s) := by
  refine ⟨fun n x _ => Strict.step_eq p.chunk x.1, fun fuel => ?_⟩
  rw [run_eq_cleared]
  rcases runFrom_cases host p fuel (m.load p, s) with ⟨y, steps, run⟩ | ⟨n, _, y, steps, stops⟩
  · rw [run]
    exact .goesOn steps
  · revert stops
    rcases runFrom host p fuel (m.load p) s with ⟨_ | e | _, m', s'⟩
    · exact fun stops => .succeeds steps stops stops.finished
    · exact fun stops => .fails steps stops stops.failed rfl
    · exact fun stops => absurd rfl stops.ne_unfinished

/-- A jump into the middle of an instruction comes to a byte that pops, on an empty stack. -/
theorem arbitrary_code_is_contained_landing :
    ∃ p m' e, p = (⟨[], { code := #[40, 0, 1, 0, 4, 4] }, #[]⟩ : Program) ∧
      m' = ({ program := some p, ip := 4, count := 1 } : Machine) ∧
      Steps recorder p 1 (({} : Machine).load p, []) (m', []) ∧
      Strict.step p.chunk m' = some (m'.turn p.chunk) ∧
      run recorder 2 p {} [] = (.failed e, m', []) ∧ e.ip = 4 ∧ e.op = 4 ∧
      Contained recorder p (({} : Machine).load p, []) 2 (.failed e, m', []) := by
  let p : Program := ⟨[], { code := #[40, 0, 1, 0, 4, 4] }, #[]⟩
  let m' : Machine := { program := some p, ip := 4, count := 1 }
  obtain ⟨reads, contained⟩ := arbitrary_code_is_contained recorder p {} []
  have fetched : (({} : Machine).load p).fetch p.chunk = .ready ⟨.jump, 1⟩ := by decide
  have executed : (({} : Machine).load p).execute p.chunk ⟨.jump, 1⟩ = .next m' := rfl
  have step : Steps recorder p 1 (({} : Machine).load p, []) (m', []) :=
    .cons (.next fetched executed) (.none _)
  have refused : m'.fetch p.chunk = .refused 4 (.stackUnderflow .pop 0) := by decide
  have failed : run recorder 2 p {} [] =
      (.failed (.locate p 4 4 (.stackUnderflow .pop 0)), m', []) := by
    have run := (runFrom_steps step 1).trans (runFrom_stops (.refused refused) 0)
    rw [run_eq_cleared, run]
    rfl
  have whole := contained 2
  rw [failed] at whole
  exact ⟨p, m', _, rfl, rfl, step, reads 1 _ step, failed, rfl, rfl, whole⟩

end Machine

end StackScript
