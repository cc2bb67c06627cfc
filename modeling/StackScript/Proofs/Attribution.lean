import StackScript.Proofs.Assembly.Origins
import StackScript.Proofs.Containment
import StackScript.Proofs.Incremental

/-! Failures point at what failed. When a run fails by what it computes, the failure carries the
span of one token of the source: the operator that was applied, or the name that has no global. -/

namespace StackScript

open Asm Fragment Grammar Machine

namespace Machine

variable {f : Value → Value → Except OperatorFault Value} {g : Value → Except OperatorFault Value}
  {fault : MachineFault} {m m' : Machine} {name : Text}

theorem operator_of_binary (fails : m.binary f = .fault fault m') : ∃ e, fault = .operator e := by
  unfold binary at fails
  dsimp only at fails
  split at fails
  · cases fails
  · cases fails
    exact ⟨_, rfl⟩

theorem operator_of_unary (fails : m.unary g = .fault fault m') : ∃ e, fault = .operator e := by
  unfold unary at fails
  dsimp only at fails
  split at fails
  · cases fails
  · cases fails
    exact ⟨_, rfl⟩

def Uncomputed : Effect → Prop
  | .fault fault _ => ¬ fault.Computed
  | _ => True

theorem uncomputed_getLocal (slot : Nat) (m : Machine) : Uncomputed (m.getLocal slot) := by
  unfold getLocal
  split
  · trivial
  · exact id

theorem uncomputed_setLocal (slot : Nat) (m : Machine) : Uncomputed (m.setLocal slot) := by
  unfold setLocal
  split
  · trivial
  · exact id

theorem uncomputed_loopBack (distance : Nat) (m : Machine) : Uncomputed (m.loopBack distance) := by
  unfold loopBack
  split
  · exact id
  · trivial

theorem undefined_of_getGlobal (fails : m.getGlobal name = .fault fault m') :
    fault = .undefinedVariable name := by
  unfold getGlobal at fails
  split at fails
  · cases fails
  · cases fails
    rfl

theorem undefined_of_setGlobal (fails : m.setGlobal name = .fault fault m') :
    fault = .undefinedVariable name := by
  unfold setGlobal at fails
  split at fails
  · cases fails
  · cases fails
    rfl

end Machine

namespace Asm

inductive Breaks : Asm → MachineFault → Prop where
  | get (x : Text) : Breaks (.get (.global x)) (.undefinedVariable x)
  | set (x : Text) : Breaks (.set (.global x)) (.undefinedVariable x)
  | operation {op : Opcode} (e : OperatorFault) : op.fallible = true → Breaks (.plain op) (.operator e)

variable {a : Asm} {m m' : Machine} {fault : MachineFault}

theorem Breaks.fallible (breaks : Breaks a fault) : a.Fallible := by
  cases breaks with
  | get x | set x => trivial
  | operation e fallible => exact fallible

theorem breaks_of_uncomputed {e : Effect} (none : Uncomputed e) (fails : e = .fault fault m')
    (computed : fault.Computed) : Breaks a fault := by
  rw [fails] at none
  exact absurd computed none

theorem breaks_of_plain {op : Opcode} (fails : perform (.plain op) m = .fault fault m')
    (computed : fault.Computed) : Breaks (.plain op) fault := by
  have binary {f : Value → Value → Except OperatorFault Value} (fallible : op.fallible = true)
      (fails : m.binary f = .fault fault m') : Breaks (.plain op) fault := by
    obtain ⟨e, rfl⟩ := operator_of_binary fails
    exact .operation e fallible
  cases op with
  | add | subtract | multiply | divide | equals | notEquals => exact binary rfl fails
  | less | lessEquals | greater | greaterEquals => exact binary rfl fails
  | negate =>
    obtain ⟨e, rfl⟩ := @operator_of_unary Value.negate _ _ _ fails
    exact .operation e rfl
  | pushNone | pushTrue | pushFalse | pop | print | finish | not | ternary => cases fails
  | jump | jumpFalse => cases fails
  | constant | defGlobal | getGlobal | setGlobal =>
    cases fails
    exact computed.elim
  | getLocal => exact breaks_of_uncomputed (uncomputed_getLocal 0 m) fails computed
  | setLocal => exact breaks_of_uncomputed (uncomputed_setLocal 0 m) fails computed
  | loop => exact breaks_of_uncomputed (uncomputed_loopBack 0 m) fails computed

theorem breaks_of_step (fails : a.step m = .fault fault m') (computed : fault.Computed) :
    Breaks a fault := by
  rcases a.step_cases m with ⟨_, step⟩ | ⟨_, step⟩ | ⟨_, step⟩ | ⟨_, step⟩
  · cases step.symm.trans fails
    exact computed.elim
  · cases step.symm.trans fails
    exact computed.elim
  · cases step.symm.trans fails
    exact computed.elim
  · rw [step] at fails
    match a, fails with
    | .plain op, fails => exact breaks_of_plain fails computed
    | .get (.global x), fails =>
      rw [undefined_of_getGlobal fails]
      exact .get x
    | .set (.global x), fails =>
      rw [undefined_of_setGlobal fails]
      exact .set x
    | .get (.slot n), fails => exact breaks_of_uncomputed (uncomputed_getLocal n _) fails computed
    | .set (.slot n), fails => exact breaks_of_uncomputed (uncomputed_setLocal n _) fails computed
    | .loop n, fails => exact breaks_of_uncomputed (uncomputed_loopBack n _) fails computed

end Asm

/-- A token that explains a failure: the operator of the instruction that failed, or the name that
it did not find. -/
def RuntimeError.Explained (e : RuntimeError) (t : Token) : Prop :=
  match e.fault with
  | .undefinedVariable x => t.kind = .identifier ∧ t.lexeme = x ∧
      e.op ∈ [Opcode.getGlobal.toByte, Opcode.setGlobal.toByte]
  | .operator _ => ∃ op : Opcode, e.op = op.toByte ∧ op.fallible = true ∧ op.Written t.kind
  | _ => False

/-- A failure that points at the one token that its instruction was emitted for. -/
structure Attributed (tokens : List Token) (ds : List Decl) (e : RuntimeError) (t : Token) :
    Prop where
  token : t ∈ tokens
  emitted : EmittedFor ds e.ip t
  span : e.span = some t.span
  explained : e.Explained t

namespace Machine

variable {σ : Type} {host : Host σ} {p : Program} {body : Fragment} {heights : Nat → Option Nat}
  {x y : Machine × σ} {n : Nat}

theorem Steps.charted (steps : Steps host p n x y) (holds : p.Holds (body ++ of [.plain .finish]))
    (charted : Charted body heights) (height : heights x.1.ip = some x.1.stack.size) :
    heights y.1.ip = some y.1.stack.size := by
  induction steps with
  | none => exact height
  | cons step _ ih =>
    refine ih ?_
    obtain ⟨a, stands, steady⟩ := place charted height
    rcases fetch_at holds stands with ⟨k, ready, executes⟩ | ⟨fault, refused, _⟩
    · cases step with
      | next fetched executed =>
        cases ready.symm.trans fetched
        exact steady.goes (.inl (executes.symm.trans executed))
      | print fetched executed _ =>
        cases ready.symm.trans fetched
        exact steady.goes (.inr ⟨_, executes.symm.trans executed⟩)
    · cases step with
      | next fetched _ => cases refused.symm.trans fetched
      | print fetched _ _ => cases refused.symm.trans fetched

/-- A run that stops because of what was computed stops at an instruction that breaks. -/
theorem Stops.breaks {f : Fragment} {a : Asm} {e : RuntimeError} {m : Machine} {s : σ}
    (stops : Stops host p x (.failed e, m, s)) (holds : p.Holds f) (stands : At f.code x.1.ip a)
    (computed : e.fault.Computed) :
    (Breaks a e.fault ∧ e = .locate p x.1.ip a.op.toByte e.fault) ∨ Refused host p x e := by
  cases stops with
  | refused fetched =>
    rcases fetch_at holds stands with ⟨k, ready, _⟩ | ⟨fault, refused, stopped⟩
    · cases fetched.symm.trans ready
    · cases fetched.symm.trans refused
      exact .inl ⟨breaks_of_step stopped computed, rfl⟩
  | fault fetched executed =>
    rcases fetch_at holds stands with ⟨k, ready, executes⟩ | ⟨fault, refused, _⟩
    · cases fetched.symm.trans ready
      exact .inl ⟨breaks_of_step (executes.symm.trans executed) computed, rfl⟩
    · cases fetched.symm.trans refused
  | @write _ _ _ _ i line refusal fetched executed written =>
    cases refusal with
    | message text => exact computed.elim
    | failure e => exact .inr ⟨i, line, _, fetched, executed, congrArg Prod.fst written⟩

end Machine

theorem Asm.At.of_append {code : List Asm} {o : Nat} {a b : Asm} (stands : At (code ++ [b]) o a)
    (other : a ≠ b) : At code o a := by
  obtain ⟨before, after, split, rfl⟩ := stands
  rcases List.eq_nil_or_concat after with rfl | ⟨after, c, rfl⟩
  · exact absurd (List.cons.inj (List.append_inj_right' split rfl)).1.symm other
  · rw [List.concat_eq_append, ← List.cons_append, ← List.append_assoc] at split
    exact ⟨before, after, List.append_inj_left' split rfl, rfl⟩

theorem Grammar.Derives.attributed {tokens : List Token} {ds : List Decl} {p : StackScript.Program}
    {a : Asm} {e : RuntimeError} {offset : Nat} (derived : Derives tokens ds)
    (holds : p.Holds (program ds)) (stands : At (program ds).code offset a)
    (breaks : Breaks a e.fault) (located : e = .locate p offset a.op.toByte e.fault) :
    ∃ t, Attributed tokens ds e t := by
  have credits := (derived.1.credited true []).credits
  have inner : At (fragmentAll true [] ds).code offset a := by
    refine stands.of_append ?_
    rintro rfl
    cases breaks.fallible
  obtain ⟨t, k, origin, place, mem, span, stems⟩ := credits.of_at inner breaks.fallible
  have ip : e.ip = offset := by rw [located]; rfl
  have op : e.op = a.op.toByte := by rw [located]; rfl
  have found : e.span = p.spans.find? offset := by rw [located]; rfl
  refine ⟨t, List.takeWhile_subset _ mem, ⟨k, origin, ?_⟩, ?_, ?_⟩
  · have inside : k < (originsAll true ds).length := (List.getElem?_eq_some_iff.1 origin).1
    rw [credits.length] at inside
    rw [program, code_append, List.take_append_of_le_length (Nat.le_of_lt inside), place, ip]
  · rw [Nat.zero_add] at span
    rw [found, holds.find?, program, spanAt_append_left (within_of _) inner.lt_total, span]
  · clear located found
    unfold RuntimeError.Explained
    generalize e.fault = fault at breaks
    cases breaks with
    | get x => exact ⟨stems.1, stems.2, by simp [op, Asm.op]⟩
    | set x => exact ⟨stems.1, stems.2, by simp [op, Asm.op]⟩
    | @operation code e fallible => exact ⟨code, op, fallible, stems fallible⟩

theorem exists_tokens {file source : Text} {p : StackScript.Program}
    (compiled : compile file source = .ok p) :
    ∃ tokens, Lexer.tokens file source = ⟨tokens, none⟩ ∧ compileTokens file tokens = .ok p := by
  unfold compile at compiled
  cases lexed : Lexer.tokens file source with
  | mk tokens failure =>
    rw [lexed] at compiled
    cases failure with
    | some e => cases compiled
    | none => exact ⟨tokens, rfl, compiled⟩

/-- Failures of what a source computes point at its tokens, unless the host brings them in from
elsewhere; and every place of the program but its end has a span. -/
theorem faults_point_at_their_tokens {file source : Text} {p : StackScript.Program}
    (compiled : compile file source = .ok p) :
    ∃ tokens ds, Lexer.tokens file source = ⟨tokens, none⟩ ∧ Derives tokens ds ∧
      p.Holds (program ds) ∧
      (∀ {σ : Type} (host : Host σ) (fuel : Nat) (m : Machine) (s : σ) (e : RuntimeError)
        (m' : Machine) (s' : σ), run host fuel p m s = (.failed e, m', s') → e.fault.Computed →
        (∃ t, Attributed tokens ds e t) ∨
          ∃ n x, Steps host p n (m.load p, s) x ∧ Refused host p x e) ∧
      ∀ offset, offset + 1 < p.chunk.code.size → ∃ span, p.spans.find? offset = some span := by
  obtain ⟨tokens, lexed, compiled⟩ := exists_tokens compiled
  obtain ⟨ds, derived⟩ := exists_derives compiled
  have along := derived.compiled file
  rw [compiled] at along
  obtain ⟨_, _, holds⟩ := along
  obtain ⟨heights, charted⟩ := derived.charted
  refine ⟨tokens, ds, lexed, derived, holds, ?_, fun offset inside => ?_⟩
  · intro σ host fuel m s e m' s' failed computed
    obtain ⟨n, x, m'', steps, stops⟩ := stops_of_failed failed
    obtain ⟨a, stands, _⟩ := place charted (steps.charted holds charted charted.start)
    rcases stops.breaks holds stands computed with ⟨breaks, located⟩ | refused
    · exact .inl (derived.attributed holds stands breaks located)
    · exact .inr ⟨n, x, steps, refused⟩
  · have size : p.chunk.code.size = (fragmentAll true [] ds).size + 1 := by
      rw [← Array.length_toList, holds.code.length, program, code_append, total_append]
      rfl
    have body : offset < (fragmentAll true [] ds).size := by omega
    rw [holds.find?, program, spanAt_append_left (within_of _) body]
    exact exists_spanAt_all true [] ds body

/-- In `print x;` the name that is not there is the second token. -/
theorem faults_point_at_their_tokens_name :
    ∃ p e, ∃ t : Token, compile [] (utf8 "print x;") = .ok p ∧
      (run recorder 1 p {} []).1 = .failed e ∧ e.fault = .undefinedVariable (utf8 "x") ∧
      t.lexeme = utf8 "x" ∧ e.span = some t.span ∧ e.span = some ⟨[], 1, 6, 7⟩ := by
  obtain ⟨p, compiled⟩ : ∃ p, compile [] (utf8 "print x;") = .ok p := ⟨_, rfl⟩
  obtain ⟨tokens, ds, _, _, _, attributed, _⟩ := faults_point_at_their_tokens compiled
  obtain ⟨e, m', s', failed, fault, span⟩ : ∃ e m' s',
      run recorder 1 p {} [] = (.failed e, m', s') ∧ e.fault = .undefinedVariable (utf8 "x") ∧
        e.span = some ⟨[], 1, 6, 7⟩ := by
    cases compiled
    exact ⟨_, _, _, rfl, rfl, rfl⟩
  rcases attributed recorder 1 {} [] e m' s' failed (by rw [fault]; trivial) with
    ⟨t, blamed⟩ | ⟨n, x, _, i, line, m, _, _, refused⟩
  · have explained := blamed.explained
    rw [RuntimeError.Explained, fault] at explained
    exact ⟨p, e, t, compiled, congrArg Prod.fst failed, fault, explained.2.1, blamed.span, span⟩
  · cases refused

end StackScript
