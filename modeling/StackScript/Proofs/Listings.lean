import StackScript.Proofs.Attribution
import StackScript.Proofs.Machine.Bounds
import StackScript.Proofs.Text.Encoding

/-! Listings show what runs. At every offset of any code the listing and the machine take the same
bytes for the same instruction with the same operand, and a listed jump names the place where the
machine goes on. The listing of compiled code goes through all of it once, and a run is nowhere
else than at a listed instruction. -/

namespace StackScript

open Asm Fragment Grammar Machine

namespace Instruction

def Leaps (i : Instruction) : Prop := i.op = .jump ∨ i.op = .jumpFalse ∨ i.op = .loop

/-- Where a jump at an offset leads when it is taken. -/
def target (i : Instruction) (offset : Nat) : Int :=
  match i.op with
  | .loop => offset + i.size - i.operand
  | _ => offset + i.size + i.operand

def Taken (i : Instruction) (m : Machine) : Prop :=
  match i.op with
  | .jump => True
  | .jumpFalse => m.top.truthy = false
  | .loop => 0 ≤ i.target m.ip
  | _ => False

def referred (c : Chunk) (index : Nat) : Text :=
  match c.constants[index]? with
  | some v => v.listed
  | none => utf8 "<invalid>"

/-- What a row says about an operand: a constant, a name, or where a jump leads from and to. -/
def note (c : Chunk) (offset : Nat) (i : Instruction) : Text :=
  match i.op with
  | .constant => utf8 " ; const[" ++ utf8 (toString i.operand) ++ utf8 "]=" ++ referred c i.operand
  | .defGlobal | .getGlobal | .setGlobal => utf8 " ; name=" ++ referred c i.operand
  | .jump | .jumpFalse | .loop =>
    utf8 " ; " ++ utf8 (toString offset) ++ utf8 " -> " ++ utf8 (toString (i.target offset))
  | _ => []

/-- The row of an instruction: its offset in four digits or more, its line where that is another one
than before, its operation in a column, and then its operand with a note, if it has one. -/
def row (c : Chunk) (offset : Nat) (i : Instruction) : Text :=
  let number := utf8 (toString offset)
  let line :=
    if c.continuesLine offset then utf8 "|"
    else if 0 < c.lineAt offset then utf8 (toString (c.lineAt offset))
    else utf8 "-"
  let operand :=
    if i.op.operandWidth = 0 then []
    else utf8 " " ++ utf8 (toString i.operand) ++ i.note c offset
  List.replicate (4 - number.length) 0x30 ++ number ++ utf8 " " ++
    List.replicate (4 - Text.runeCount line) 0x20 ++ line ++ utf8 " " ++
    i.op.label ++ List.replicate (16 - Text.runeCount i.op.label) 0x20 ++ operand ++ utf8 "\n"

end Instruction

open Instruction

/-- What the listing and the machine make of the bytes at an offset. -/
structure DecodedAlike (c : Chunk) (offset : Nat) : Prop where
  onward : offset < (Listing.instructionOrFault c offset).2
  within : (Listing.instructionOrFault c offset).2 ≤ c.code.size
  cut : ∀ m : Machine, m.ip = offset →
    ((∃ op, m.fetch c = .refused op.toByte (.truncated op)) ↔
      ∃ e, Listing.instruction c offset = .error e)
  whole : ∀ r, Listing.instruction c offset = .ok r → Listing.instructionOrFault c offset = r ∧
    ∃ b, c.code[offset]? = some b ∧ r.2 = offset + instructionLength b
  shown : ∀ i, decode c.code offset = .ok i →
    Listing.instruction c offset = .ok (i.row c offset, offset + i.size)
  fetched : ∀ (m : Machine) (i : Instruction), m.ip = offset → m.fetch c = .ready i →
    decode c.code offset = .ok i ∧
      m.execute c i = Machine.perform c i { m with ip := offset + i.size, count := m.count + 1 }
  taken : ∀ (m : Machine) (i : Instruction), m.ip = offset → m.fetch c = .ready i → i.Taken m →
    ∃ m', m.execute c i = .next m' ∧ (m'.ip : Int) = i.target offset
  passed : ∀ (m : Machine) (i : Instruction), m.ip = offset → m.fetch c = .ready i → ¬ i.Taken m →
    (m.execute c i).machine.ip = offset + i.size

/-- The instructions from an offset to the end of code, one behind the other. -/
inductive Sweep (c : Chunk) : Nat → List (Nat × Instruction) → Prop where
  | done : Sweep c c.code.size []
  | cons {offset : Nat} {i : Instruction} {rest : List (Nat × Instruction)} :
      decode c.code offset = .ok i → Sweep c (offset + i.size) rest →
      Sweep c offset ((offset, i) :: rest)

/-- A program whose listing consists of the rows of some instructions. They make up the code, its
jumps lead from one of them to another, and every run is at one of them before each of its steps. -/
structure Listed (p : StackScript.Program) (places : List (Nat × Instruction)) : Prop where
  sweep : Sweep p.chunk 0 places
  text : ∀ label, Listing.chunk label p.chunk =
    (utf8 "== " ++ (if label = [] then utf8 "<script>" else label) ++ utf8 " (" ++
      utf8 (toString p.chunk.code.size) ++ utf8 " bytes, " ++
      utf8 (toString p.chunk.constants.size) ++ utf8 " constants) ==\n" ++
      places.flatMap fun x => x.2.row p.chunk x.1, none)
  targets : ∀ x ∈ places, x.2.Leaps → ∃ y ∈ places, (y.1 : Int) = x.2.target x.1
  runs : ∀ {σ : Type} (host : Host σ) (m : Machine) (s : σ) (n : Nat) (x : Machine × σ),
    Steps host p n (m.load p, s) x → ∃ i, (x.1.ip, i) ∈ places

section Reading

variable {c : Chunk} {offset : Nat}

theorem readByte_of_le {code : Array UInt8} {ip : Nat} (inside : ip + 1 ≤ code.size) :
    Listing.readByte code ip = .ok (operandAt code ip 1, ip + 1) := by
  have found : code[ip]? = some (code.getD ip 0) := by simp [Nat.lt_of_succ_le inside]
  simp only [Listing.readByte, operandAt, found, Option.getD_some]

theorem readByte_of_not_le {code : Array UInt8} {ip : Nat} (outside : ¬ ip + 1 ≤ code.size) :
    Listing.readByte code ip = .error .truncated := by
  have missing : code[ip]? = none := Array.getElem?_eq_none_iff.2 (by omega)
  simp only [Listing.readByte, missing]

theorem readPair_of_le {code : Array UInt8} {ip : Nat} (inside : ip + 2 ≤ code.size) :
    Listing.readPair code ip = .ok (operandAt code ip 2, ip + 2) := by
  have first : ip < code.size := by omega
  have high : code[ip]? = some (code.getD ip 0) := by simp [first]
  have low : code[ip + 1]? = some (code.getD (ip + 1) 0) := by simp [Nat.lt_of_succ_le inside]
  simp only [Listing.readPair, operandAt, high, low, Option.getD_some]

theorem readPair_of_not_le {code : Array UInt8} {ip : Nat} (outside : ¬ ip + 2 ≤ code.size) :
    Listing.readPair code ip = .error .truncated := by
  have missing : code[ip + 1]? = none := Array.getElem?_eq_none_iff.2 (by omega)
  simp only [Listing.readPair, missing]
  cases code[ip]? <;> rfl

/-- The operand of an instruction, where it has one, and what is said about it. -/
def detail (c : Chunk) (offset : Nat) (i : Instruction) : Text :=
  if i.op.operandWidth = 0 then [] else Text.natural i.operand ++ i.note c offset

theorem constantText_eq (c : Chunk) (index : Nat) :
    Listing.constantText c index = referred c index := rfl

theorem natural_ne_nil (n : Nat) : Text.natural n ≠ [] := by
  simp [Text.natural, Nat.toDigits_ne_nil]

theorem row_eq (c : Chunk) (offset : Nat) (i : Instruction) :
    Listing.row c offset i.op.label (detail c offset i) = i.row c offset := by
  have line : Listing.lineColumn c offset =
      if c.continuesLine offset then utf8 "|"
      else if 0 < c.lineAt offset then utf8 (toString (c.lineAt offset)) else utf8 "-" := by
    simp only [Listing.lineColumn, Text.decimal_eq]
  have operand : (if detail c offset i = [] then [] else utf8 " " ++ detail c offset i) =
      if i.op.operandWidth = 0 then []
      else utf8 " " ++ utf8 (toString i.operand) ++ i.note c offset := by
    unfold detail
    split
    · rfl
    · rw [if_neg (by simp [natural_ne_nil]), Text.natural_eq, List.append_assoc]
  rw [Listing.row, operand, line, Text.padLeft, Text.padRight]
  simp only [row, Text.zeroPadded, Text.natural_eq, Text.spaces, List.append_assoc]

/-- The listing reads the operands that the table of operations gives an operation. -/
theorem operands_eq (op : Opcode) (inside : offset < c.code.size) :
    Listing.operands c offset op =
      if offset + 1 + op.operandWidth ≤ c.code.size then
        .ok (detail c offset ⟨op, operandAt c.code (offset + 1) op.operandWidth⟩,
          offset + (1 + op.operandWidth))
      else .error .truncated := by
  by_cases whole : offset + 1 + op.operandWidth ≤ c.code.size
  · rw [if_pos whole]
    cases op with
    | constant | defGlobal | getGlobal | setGlobal | jump | jumpFalse | loop =>
      simp only [Listing.operands]
      rw [readPair_of_le whole]
      simp [Except.map, detail, note, constantText_eq, Listing.leap, target, Instruction.size,
        Opcode.operandWidth, Nat.add_assoc, Text.natural_eq, Text.decimal_eq]
    | getLocal | setLocal =>
      simp only [Listing.operands]
      rw [readByte_of_le whole]
      simp [Except.map, detail, note, Opcode.operandWidth, Nat.add_assoc]
    | _ => rfl
  · rw [if_neg whole]
    cases op with
    | constant | defGlobal | getGlobal | setGlobal | jump | jumpFalse | loop =>
      simp only [Listing.operands]
      rw [readPair_of_not_le whole]
      rfl
    | getLocal | setLocal =>
      simp only [Listing.operands]
      rw [readByte_of_not_le whole]
      rfl
    | _ => exact absurd inside whole

theorem instruction_eq (c : Chunk) (offset : Nat) : Listing.instruction c offset =
    match decode c.code offset with
    | .error .pastEnd => .error (.outOfRange offset)
    | .error (.reserved b) => .ok (Listing.row c offset (Listing.reservedLabel b) [], offset + 1)
    | .error (.truncated _) => .error .truncated
    | .ok i => .ok (i.row c offset, offset + i.size) := by
  simp only [Listing.instruction, if_neg (Int.not_lt.2 (Int.natCast_nonneg offset)),
    Int.toNat_natCast, decode]
  cases found : c.code[offset]? with
  | none => rfl
  | some b =>
    dsimp only
    cases Opcode.ofByte? b with
    | none => rfl
    | some op =>
      dsimp only
      rw [operands_eq op (Array.getElem?_eq_some_iff.1 found).1]
      split
      · dsimp only [Except.map]
        rw [← row_eq]
        rfl
      · rfl

theorem instruction_of_decoded {i : Instruction} (decoded : decode c.code offset = .ok i) :
    Listing.instruction c offset = .ok (i.row c offset, offset + i.size) := by
  rw [instruction_eq, decoded]

theorem size_of_decoded {i : Instruction} (decoded : decode c.code offset = .ok i) :
    offset + i.size ≤ c.code.size ∧ ∃ b, c.code[offset]? = some b ∧ instructionLength b = i.size := by
  unfold decode at decoded
  cases found : c.code[offset]? with
  | none => simp [found] at decoded
  | some b =>
    cases known : Opcode.ofByte? b with
    | none => simp [found, known] at decoded
    | some op =>
      simp only [found, known] at decoded
      split at decoded
      · next whole =>
        cases decoded
        refine ⟨?_, b, rfl, ?_⟩
        · rw [Instruction.size, ← Nat.add_assoc]
          exact whole
        · rw [instructionLength, known]
          rfl
      · cases decoded

theorem size_of_reserved {b : UInt8} (reserved : decode c.code offset = .error (.reserved b)) :
    c.code[offset]? = some b ∧ instructionLength b = 1 := by
  unfold decode at reserved
  cases found : c.code[offset]? with
  | none => simp [found] at reserved
  | some b' =>
    cases known : Opcode.ofByte? b' with
    | none =>
      simp only [found, known] at reserved
      cases reserved
      exact ⟨rfl, by rw [instructionLength, known]; rfl⟩
    | some op =>
      simp only [found, known] at reserved
      split at reserved <;> cases reserved

theorem instruction_error_iff (inside : offset < c.code.size) :
    (∃ e, Listing.instruction c offset = .error e) ↔
      ∃ op, decode c.code offset = .error (.truncated op) := by
  rw [instruction_eq]
  rcases decode_cases c.code offset with
    ⟨past, _⟩ | ⟨b, _, decoded⟩ | ⟨op, _, decoded⟩ | ⟨i, _, decoded⟩
  · exact absurd past (Nat.not_le.2 inside)
  · simp [decoded]
  · simp [decoded]
  · simp [decoded]

theorem refused_truncated_iff (m : Machine) :
    (∃ op, m.fetch c = .refused op.toByte (.truncated op)) ↔
      ∃ op, decode c.code m.ip = .error (.truncated op) := by
  unfold fetch
  cases decoded : decode c.code m.ip with
  | error e => cases e <;> simp
  | ok i =>
    dsimp only
    split
    · simp
    · split
      · simp
      · split <;> simp

theorem instructionOrFault_of_ok {r : Text × Nat} (listed : Listing.instruction c offset = .ok r) :
    Listing.instructionOrFault c offset = r := by
  unfold Listing.instructionOrFault
  rw [listed]

theorem next_of_error {e : ListingFault} {b : UInt8}
    (fails : Listing.instruction c offset = .error e) (found : c.code[offset]? = some b) :
    (Listing.instructionOrFault c offset).2 = min (offset + instructionLength b) c.code.size := by
  have here : c.code[(offset : Int).toNat]? = some b := found
  simp only [Listing.instructionOrFault, fails, here]

theorem length_of_listed {r : Text × Nat} (listed : Listing.instruction c offset = .ok r) :
    r.2 ≤ c.code.size ∧ ∃ b, c.code[offset]? = some b ∧ r.2 = offset + instructionLength b := by
  rw [instruction_eq] at listed
  rcases decode_cases c.code offset with
    ⟨_, decoded⟩ | ⟨b, _, decoded⟩ | ⟨op, _, decoded⟩ | ⟨i, _, decoded⟩
  · simp [decoded] at listed
  · obtain ⟨found, length⟩ := size_of_reserved decoded
    have inside := (Array.getElem?_eq_some_iff.1 found).1
    simp only [decoded] at listed
    obtain rfl := Except.ok.inj listed
    exact ⟨inside, b, found, by rw [length]⟩
  · simp [decoded] at listed
  · obtain ⟨fits, b, found, length⟩ := size_of_decoded decoded
    simp only [decoded] at listed
    obtain rfl := Except.ok.inj listed
    exact ⟨fits, b, found, by rw [length]⟩

theorem instructionLength_pos (b : UInt8) : 0 < instructionLength b := by
  unfold instructionLength
  omega

theorem next_bounds (inside : offset < c.code.size) :
    offset < (Listing.instructionOrFault c offset).2 ∧
      (Listing.instructionOrFault c offset).2 ≤ c.code.size := by
  cases listed : Listing.instruction c offset with
  | error e =>
    obtain ⟨b, found⟩ : ∃ b, c.code[offset]? = some b := ⟨_, Array.getElem?_eq_getElem inside⟩
    have positive := instructionLength_pos b
    rw [next_of_error listed found]
    omega
  | ok r =>
    obtain ⟨fits, b, _, length⟩ := length_of_listed listed
    have positive := instructionLength_pos b
    rw [instructionOrFault_of_ok listed]
    omega

end Reading

namespace Machine

variable {c : Chunk} {m : Machine}

theorem ip_binary (f : Value → Value → Except OperatorFault Value) :
    (m.binary f).machine.ip = m.ip := by
  unfold binary
  dsimp only
  split <;> rfl

theorem ip_unary (f : Value → Except OperatorFault Value) : (m.unary f).machine.ip = m.ip := by
  unfold unary
  dsimp only
  split <;> rfl

theorem ip_withName {f : Text → Machine → Effect} (index : Nat)
    (same : ∀ name, (f name m).machine.ip = m.ip) : (m.withName c index f).machine.ip = m.ip := by
  unfold withName
  split
  · rfl
  · exact same _
  · rfl

theorem ip_perform {i : Instruction} (straight : ¬ i.Leaps) :
    (Machine.perform c i m).machine.ip = m.ip := by
  obtain ⟨op, n⟩ := i
  cases op with
  | pushNone | pushTrue | pushFalse | pop | print | finish | ternary => rfl
  | add | subtract | multiply | divide | equals | notEquals => exact ip_binary _
  | less | lessEquals | greater | greaterEquals => exact ip_binary _
  | negate => exact ip_unary Value.negate
  | not => exact ip_unary fun v => .ok v.not
  | constant =>
    simp only [Machine.perform]
    split <;> rfl
  | defGlobal => exact ip_withName n fun _ => rfl
  | getGlobal =>
    refine ip_withName n fun name => ?_
    unfold getGlobal
    split <;> rfl
  | setGlobal =>
    refine ip_withName n fun name => ?_
    unfold setGlobal
    split <;> rfl
  | getLocal =>
    simp only [Machine.perform, getLocal]
    split <;> rfl
  | setLocal =>
    simp only [Machine.perform, setLocal]
    split <;> rfl
  | jump => exact absurd (.inl rfl) straight
  | jumpFalse => exact absurd (.inr (.inl rfl)) straight
  | loop => exact absurd (.inr (.inr rfl)) straight

theorem execute_of_taken {i : Instruction} (taken : i.Taken m) :
    ∃ m', m.execute c i = .next m' ∧ (m'.ip : Int) = i.target m.ip := by
  obtain ⟨op, n⟩ := i
  cases op with
  | jump => exact ⟨_, rfl, by simp [jumpBy, target]⟩
  | jumpFalse =>
    have falsy : m.top.truthy = false := taken
    refine ⟨_, rfl, ?_⟩
    change ((if m.top.truthy then _ else _ : Machine).ip : Int) = _
    rw [falsy]
    simp [jumpBy, target]
  | loop =>
    have inside : (0 : Int) ≤ m.ip + 3 - n := taken
    refine ⟨_, if_neg (by change ¬ m.ip + 3 < n; omega), ?_⟩
    change ((m.ip + 3 - n : Nat) : Int) = m.ip + 3 - n
    omega
  | _ => exact taken.elim

theorem execute_of_not_taken {i : Instruction} (passed : ¬ i.Taken m) :
    (m.execute c i).machine.ip = m.ip + i.size := by
  by_cases leaps : i.Leaps
  · obtain ⟨op, n⟩ := i
    rcases leaps with rfl | rfl | rfl
    · exact absurd trivial passed
    · have truthy : m.top.truthy = true := by simpa [Taken] using passed
      change (if m.top.truthy then _ else _ : Machine).ip = _
      rw [truthy]
      rfl
    · have outside : ¬ (0 : Int) ≤ m.ip + 3 - n := passed
      have fails : m.execute c ⟨.loop, n⟩ = .fault _ _ :=
        if_pos (show m.ip + 3 < n by omega)
      rw [fails]
      rfl
  · exact ip_perform leaps

end Machine

theorem decodedAlike (c : Chunk) {offset : Nat} (inside : offset < c.code.size) :
    DecodedAlike c offset where
  onward := (next_bounds inside).1
  within := (next_bounds inside).2
  cut := by
    rintro m rfl
    rw [refused_truncated_iff, instruction_error_iff inside]
  whole _ listed := ⟨instructionOrFault_of_ok listed, (length_of_listed listed).2⟩
  shown _ decoded := instruction_of_decoded decoded
  fetched := by
    rintro m i rfl ready
    exact ⟨(ready_iff.1 ready).1, rfl⟩
  taken := by
    rintro m i rfl _ taken
    exact execute_of_taken taken
  passed := by
    rintro m i rfl _ passed
    exact execute_of_not_taken passed

theorem Sweep.decoded {c : Chunk} {offset : Nat} {places : List (Nat × Instruction)}
    (sweep : Sweep c offset places) : ∀ x ∈ places, decode c.code x.1 = .ok x.2 := by
  induction sweep with
  | done => simp
  | cons decoded _ ih =>
    intro x mem
    rcases List.mem_cons.1 mem with rfl | mem
    · exact decoded
    · exact ih x mem

theorem Sweep.le {c : Chunk} {offset : Nat} {places : List (Nat × Instruction)}
    (sweep : Sweep c offset places) : ∀ x ∈ places, offset ≤ x.1 := by
  induction sweep with
  | done => simp
  | cons _ _ ih =>
    intro x mem
    rcases List.mem_cons.1 mem with rfl | mem
    · exact Nat.le_refl _
    · exact Nat.le_trans (Nat.le_add_right _ _) (ih x mem)

theorem Sweep.rowsFrom {c : Chunk} {offset : Nat} {places : List (Nat × Instruction)}
    (sweep : Sweep c offset places) {fuel : Nat} (enough : c.code.size < offset + fuel)
    (done : List Text) : Listing.rowsFrom c fuel offset done =
      (done.reverse ++ places.map fun x => x.2.row c x.1, none) := by
  induction sweep generalizing fuel done with
  | done =>
    obtain ⟨fuel, rfl⟩ : ∃ n, fuel = n + 1 := ⟨fuel - 1, by omega⟩
    simp [Listing.rowsFrom]
  | @cons offset i rest decoded _ ih =>
    have inside := (size_of_decoded decoded).1
    have positive : 0 < i.size := by unfold Instruction.size; omega
    obtain ⟨fuel, rfl⟩ : ∃ n, fuel = n + 1 := ⟨fuel - 1, by omega⟩
    rw [Listing.rowsFrom, if_neg (by omega), instruction_of_decoded decoded]
    dsimp only
    rw [ih (by omega)]
    simp

theorem at_cons {a b : Asm} {code : List Asm} {o : Nat} :
    At (a :: code) o b ↔ (o = 0 ∧ b = a) ∨ ∃ k, o = a.size + k ∧ At code k b := by
  constructor
  · rintro ⟨before, after, split, rfl⟩
    cases before with
    | nil => exact .inl ⟨rfl, (List.cons.inj split).1.symm⟩
    | cons x before =>
      obtain ⟨rfl, rest⟩ := List.cons.inj split
      exact .inr ⟨total before, rfl, before, after, rest, rfl⟩
  · rintro (⟨rfl, rfl⟩ | ⟨k, rfl, before, after, rfl, rfl⟩)
    · exact ⟨[], code, rfl, rfl⟩
    · exact ⟨a :: before, after, rfl, rfl⟩

/-- The rest of the code that a program holds is swept, at the offsets of its instructions. -/
theorem exists_sweep {p : StackScript.Program} {f : Fragment} (holds : p.Holds f)
    (before after : List Asm) (split : f.code = before ++ after) :
    ∃ places, Sweep p.chunk (total before) places ∧
      ∀ o, (∃ i, (total before + o, i) ∈ places) ↔ ∃ a, At after o a := by
  induction after generalizing before with
  | nil =>
    have size : total before = p.chunk.code.size := by
      rw [← Array.length_toList, holds.code.length, split, List.append_nil]
    refine ⟨[], by rw [size]; exact .done, fun o => ?_⟩
    simp [At]
  | cons a after ih =>
    obtain ⟨n, _, decoded⟩ := decode_at holds ⟨before, after, split, rfl⟩
    obtain ⟨places, sweep, stand⟩ := ih (before ++ [a]) (by simp [split])
    rw [total_append, total_cons, total_nil, Nat.add_zero] at sweep stand
    refine ⟨(total before, ⟨a.op, n⟩) :: places, .cons decoded sweep, fun o => ?_⟩
    simp only [at_cons, List.mem_cons]
    constructor
    · rintro ⟨i, same | mem⟩
      · have first : total before + o = total before := congrArg Prod.fst same
        exact ⟨a, .inl ⟨by omega, rfl⟩⟩
      · have later : total before + a.size ≤ total before + o := sweep.le _ mem
        obtain ⟨k, rfl⟩ : ∃ k, o = a.size + k := ⟨o - a.size, by omega⟩
        obtain ⟨b, stands⟩ := (stand k).1 ⟨i, by rwa [Nat.add_assoc]⟩
        exact ⟨b, .inr ⟨k, rfl, stands⟩⟩
    · rintro ⟨b, ⟨rfl, _⟩ | ⟨k, rfl, stands⟩⟩
      · exact ⟨⟨a.op, n⟩, .inl rfl⟩
      · obtain ⟨i, mem⟩ := (stand k).2 ⟨b, stands⟩
        exact ⟨i, .inr (by rwa [← Nat.add_assoc])⟩

/-- Balanced code leads from its instructions to its instructions, or to its end. -/
theorem Balanced.leads {code : List Asm} {entry exit offset : Nat} {a : Asm}
    (balanced : Balanced code entry exit) (stands : At code offset a) :
    (∃ height, a.Apt offset height) ∧
      ∀ next ∈ a.successors offset, (∃ b, At code next b) ∨ next = total code := by
  obtain ⟨profile, rfl, _, sound⟩ := balanced
  obtain ⟨before, after, split, rfl⟩ := stands
  obtain ⟨first, rest, rfl, rfl, tail⟩ := List.map_eq_append_iff.1 split
  obtain ⟨⟨height, a⟩, last, rfl, rfl, rfl⟩ := List.map_eq_cons_iff.1 tail
  have follows := sound.follows
  refine ⟨⟨height, follows.apt⟩, fun next mem => ?_⟩
  rcases Profile.heightAt_cases (follows.leads next mem) with
    ⟨before, b, after, whole, size⟩ | ⟨size, _⟩
  · refine .inl ⟨b, Profile.code before, Profile.code after, ?_, size⟩
    rw [whole]
    simp [Profile.code]
  · exact .inr size

theorem target_mem_successors {pool : List Value} {a : Asm} {n offset height : Nat}
    (operand : a.Operand pool n) (apt : a.Apt offset height) (leaps : Leaps ⟨a.op, n⟩) :
    ∃ next ∈ a.successors offset, (next : Int) = target ⟨a.op, n⟩ offset := by
  match a, operand, apt, leaps with
  | .jump k, rfl, _, _ =>
    refine ⟨_, List.mem_singleton.2 rfl, ?_⟩
    simp [target, Asm.op]
    rfl
  | .jumpFalse k, rfl, _, _ =>
    refine ⟨offset + 3 + k, by simp [successors], ?_⟩
    simp [target, Asm.op]
    rfl
  | .loop k, rfl, apt, _ =>
    have inside : k ≤ offset + 3 := apt
    refine ⟨_, List.mem_singleton.2 rfl, ?_⟩
    change ((offset + 3 - k : Nat) : Int) = offset + 3 - k
    omega
  | .plain code, width, _, leaps =>
    obtain rfl | rfl | rfl : code = .jump ∨ code = .jumpFalse ∨ code = .loop := leaps
    all_goals cases width

theorem listed_of_compiled {file : Text} {tokens : List Token} {p : StackScript.Program}
    (compiled : compileTokens file tokens = .ok p) : ∃ places, Listed p places := by
  obtain ⟨ds, derived⟩ := exists_derives compiled
  have along := derived.compiled file
  rw [compiled] at along
  obtain ⟨_, _, holds⟩ := along
  obtain ⟨heights, charted⟩ := derived.charted
  have balanced := balanced_all true [] ds derived.1.formed
  obtain ⟨places, sweep, stand⟩ := exists_sweep holds [] _ rfl
  simp only [total_nil, Nat.zero_add] at sweep stand
  refine ⟨places, sweep, fun label => ?_, ?_, ?_⟩
  · rw [Listing.chunk, sweep.rowsFrom (by omega)]
    have closing : utf8 " constants) ==\n" = utf8 " constants)" ++ utf8 " ==\n" := rfl
    simp [Listing.heading, Chunk.sizes, Text.natural_eq, List.flatMap_def, closing]
  · rintro ⟨offset, i⟩ mem leaps
    obtain ⟨a, stands⟩ := (stand offset).1 ⟨i, mem⟩
    obtain ⟨n, operand, decoded⟩ := decode_at holds stands
    cases (sweep.decoded _ mem).symm.trans decoded
    -- the instruction that ends the program is no jump, so the jump stands in balanced code
    have inner : At (fragmentAll true [] ds).code offset a := by
      refine stands.of_append ?_
      rintro rfl
      simp [Leaps, Asm.op] at leaps
    obtain ⟨⟨height, apt⟩, leads⟩ := balanced.leads inner
    obtain ⟨next, reached, target⟩ := target_mem_successors operand apt leaps
    have listed : ∃ b, At (program ds).code next b := by
      rcases leads next reached with ⟨b, there⟩ | rfl
      · exact ⟨b, there.left _⟩
      · exact ⟨_, .here _ _ []⟩
    obtain ⟨j, mem⟩ := (stand next).2 listed
    exact ⟨(next, j), mem, target⟩
  · intro σ host m s n x steps
    obtain ⟨a, stands, _⟩ := place charted (steps.charted holds charted charted.start)
    exact (stand x.1.ip).2 ⟨a, stands⟩

/-- Listings decode as the machine does, and list what runs. -/
theorem listings_show_what_runs :
    (∀ (c : Chunk) (offset : Nat), offset < c.code.size → DecodedAlike c offset) ∧
      ∀ (file : Text) (tokens : List Token) (p : StackScript.Program),
        compileTokens file tokens = .ok p → ∃ places, Listed p places :=
  ⟨fun c _ inside => decodedAlike c inside, fun _ _ _ compiled => listed_of_compiled compiled⟩

/-- Code that breaks off in an operand, and a loop that is compiled. -/
theorem listings_show_what_runs_loop :
    (0 < 2 ∧ DecodedAlike { code := #[42, 0] } 0 ∧
      Listing.instruction { code := #[42, 0] } 0 = .error .truncated) ∧
      ∃ p places, compileTokens [] (Lexer.tokens [] (utf8 "while none {}")).1 = .ok p ∧
        Listed p places ∧ p.chunk.code = #[1, 41, 0, 4, 4, 42, 0, 8, 4, 6] := by
  refine ⟨⟨by decide, listings_show_what_runs.1 _ 0 (by decide), rfl⟩, ?_⟩
  obtain ⟨p, compiled, code⟩ : ∃ p,
      compileTokens [] (Lexer.tokens [] (utf8 "while none {}")).1 = .ok p ∧
        p.chunk.code = #[1, 41, 0, 4, 4, 42, 0, 8, 4, 6] := ⟨_, rfl, by decide⟩
  obtain ⟨places, listed⟩ := listings_show_what_runs.2 _ _ p compiled
  exact ⟨p, places, compiled, listed, code⟩

end StackScript
