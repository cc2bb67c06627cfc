import StackScript.Proofs.Layout
import StackScript.Proofs.Lexing.Spelling
import StackScript.Proofs.Machine.Trail
import StackScript.Proofs.Session.Channels

/-! Printed scalars read back. The source that prints a literal is cut into its words, compiles to
the one constant that the literal denotes, and prints that constant as it was spelled: an integer as
its numeral, a string as its bytes. -/

namespace StackScript

open Lexer Text Grammar Fragment Asm

/-- The words that the lexer cuts a text into, gap by gap and lexeme by lexeme. -/
inductive Cuts : Text → List (TokenKind × Text) → Prop where
  | last {gap : Text} : Gap true gap → Cuts gap [(.eof, [])]
  | token {gap tail rest : Text} {b : UInt8} {kind : TokenKind} {words : List (TokenKind × Text)} :
      Gap false gap → Clear (b :: (tail ++ rest)) →
      scan b (tail ++ rest) = .found kind (tail.length + 1) → Cuts rest words →
      Cuts (gap ++ b :: (tail ++ rest)) ((kind, b :: tail) :: words)

theorem clear_nil : Clear [] := ⟨by simp, by simp [lineOpening], by simp [blockOpening]⟩

theorem clear_of_solid {b : UInt8} (solid : b ∉ 0x2f :: blanks) (rest : Text) : Clear (b :: rest) := by
  refine ⟨fun b' blank front => solid ?_, fun front => solid ?_, fun front => solid ?_⟩
  · rw [← (List.cons_prefix_cons.1 front).1]
    exact List.mem_cons_of_mem _ blank
  · rw [← (List.cons_prefix_cons.1 front).1]
    exact List.mem_cons_self
  · rw [← (List.cons_prefix_cons.1 front).1]
    exact List.mem_cons_self

theorem next_of_scan (file : Text) {c : Cursor} {gap tail rest : Text} {b : UInt8}
    {kind : TokenKind} (split : c.rest = gap ++ b :: (tail ++ rest)) (blank : Gap false gap)
    (clear : Clear (b :: (tail ++ rest)))
    (found : scan b (tail ++ rest) = .found kind (tail.length + 1)) :
    ∃ t c', c.next file = (.ok t, c') ∧ t.word = (kind, b :: tail) ∧ c'.rest = rest := by
  have length : gapLength c.rest = gap.length := by
    rw [split]
    exact gapLength_eq blank clear
  have left : (c.advance gap.length).rest = b :: (tail ++ rest) := by
    rw [Cursor.rest_advance, split, List.drop_left]
  unfold Cursor.next
  rw [length]
  generalize c.advance gap.length = d at left
  simp only [left, found]
  refine ⟨_, _, rfl, ?_, ?_⟩
  · simp [Token.word]
  · rw [Cursor.rest_advance, left]
    simp

theorem tokensFrom_of_cuts (file : Text) {words : List (TokenKind × Text)} {t : Text}
    (cuts : Cuts t words) {c : Cursor} (start : c.rest = t) {fuel : Nat} (enough : t.length < fuel)
    (done : List Token) :
    ∃ ts, tokensFrom file fuel c done = ⟨done.reverse ++ ts, none⟩ ∧ ts.map Token.word = words := by
  induction cuts generalizing c fuel done with
  | @last gap blank =>
    obtain ⟨fuel, rfl⟩ : ∃ n, fuel = n + 1 := ⟨fuel - 1, by omega⟩
    have length : gapLength c.rest = gap.length := by
      rw [start]
      have whole := @gapLength_eq gap [] blank clear_nil
      rwa [List.append_nil] at whole
    have left : (c.advance gap.length).rest = [] := by
      rw [Cursor.rest_advance, start, List.drop_length]
    unfold tokensFrom Cursor.next
    rw [length]
    generalize c.advance gap.length = d at left
    simp only [left, if_true, List.reverse_cons]
    exact ⟨_, rfl, rfl⟩
  | @token gap tail rest b kind words blank clear found _ ih =>
    obtain ⟨fuel, rfl⟩ : ∃ n, fuel = n + 1 := ⟨fuel - 1, by omega⟩
    obtain ⟨t, c', next, word, behind⟩ := next_of_scan file start blank clear found
    have proper := scan_proper b (tail ++ rest)
    rw [found] at proper
    have known : t.kind ≠ .eof := by
      rw [show t.kind = kind from congrArg Prod.fst word]
      exact proper.1
    have shorter : rest.length < fuel := by
      simp only [List.length_append, List.length_cons] at enough
      omega
    obtain ⟨ts, lexed, all⟩ := ih behind shorter (t :: done)
    refine ⟨t :: ts, ?_, by rw [List.map_cons, word, all]⟩
    unfold tokensFrom
    rw [next]
    simp only [known, if_false, lexed, List.reverse_cons, List.append_assoc, List.singleton_append]

theorem tokens_of_cuts (file : Text) {source : Text} {words : List (TokenKind × Text)}
    (cuts : Cuts source words) :
    ∃ ts, Lexer.tokens file source = ⟨ts, none⟩ ∧ ts.map Token.word = words :=
  tokensFrom_of_cuts file cuts rfl (Nat.lt_succ_self _) []

section Sources

variable {literal : Text} {words : List (TokenKind × Text)}

theorem gap_space : Gap false [0x20] := .blank (by decide) .nil

theorem cuts_semicolon : Cuts [0x3b] [(.semicolon, [0x3b]), (.eof, [])] :=
  @Cuts.token [] [] [] 0x3b _ _ .nil (clear_of_solid (by decide) []) scan_semicolon (.last .nil)

theorem cuts_print (cuts : Cuts (0x20 :: (literal ++ [0x3b])) words) :
    Cuts (utf8 "print " ++ (literal ++ utf8 ";")) ((.kwPrint, utf8 "print") :: words) :=
  .token .nil (clear_of_solid (by decide) _) (scan_print _) cuts

theorem cuts_natural {gap : Text} (blank : Gap false gap) (n : Nat) :
    Cuts (gap ++ (natural n ++ [0x3b])) [(.int, natural n), (.semicolon, [0x3b]), (.eof, [])] := by
  have digits := digits_natural n
  obtain ⟨b, tail, numeral⟩ := List.exists_cons_of_ne_nil digits.some
  rw [numeral] at digits ⊢
  have solid : ∀ b : UInt8, isDigit b = true → b ∉ 0x2f :: blanks := forall_byte (by decide +kernel)
  have clear := clear_of_solid (solid b (digits.all b List.mem_cons_self)) (tail ++ [0x3b])
  exact .token blank clear (scan_digits digits (by decide) (by decide)) cuts_semicolon

theorem cuts_negative (n : Nat) :
    Cuts (0x20 :: (0x2d :: natural n ++ [0x3b]))
      [(.minus, [0x2d]), (.int, natural n), (.semicolon, [0x3b]), (.eof, [])] := by
  have digits := digits_natural n
  obtain ⟨b, tail, numeral⟩ := List.exists_cons_of_ne_nil digits.some
  have minus : scan 0x2d (natural n ++ [0x3b]) = .found .minus 1 := by
    rw [numeral] at digits ⊢
    exact scan_minus (digits.all b List.mem_cons_self) _
  exact @Cuts.token [0x20] [] _ 0x2d _ _ gap_space (clear_of_solid (by decide) _) minus
    (cuts_natural .nil n)

theorem cuts_string {quote : UInt8} {w : Text} (known : quote ∈ quotes) (inside : Inside quote w) :
    Cuts (0x20 :: (quote :: (w ++ [quote]) ++ [0x3b]))
      [(.string, quote :: (w ++ [quote])), (.semicolon, [0x3b]), (.eof, [])] := by
  have solid : quote ∉ 0x2f :: blanks := by
    obtain rfl | rfl : quote = doubleQuote ∨ quote = singleQuote := by simpa [quotes] using known
    · decide
    · decide
  have found : scan quote ((w ++ [quote]) ++ [0x3b]) = .found .string ((w ++ [quote]).length + 1) := by
    have read := scan_string known inside [0x3b]
    rw [List.length_append]
    rwa [List.append_assoc]
  exact @Cuts.token [0x20] (w ++ [quote]) [0x3b] quote _ _ gap_space
    (clear_of_solid solid _) found cuts_semicolon

end Sources

/-! Compilation -/

theorem code_print (word semicolon : Token) (e : Expr) :
    (program [.statement (.print word e semicolon)]).code =
      (e.fragment []).code ++ [.plain .print, .plain .finish] := by
  simp [program, fragmentAll, Decl.fragment, Stmt.fragment]

theorem pool_print (word semicolon : Token) (e : Expr) :
    (program [.statement (.print word e semicolon)]).pool = internAll [] (e.fragment []).uses := by
  simp [pool_program, fragmentAll, Decl.fragment, Stmt.fragment]

/-- A source that prints an expression with few constants and no jumps compiles. -/
theorem compile_print {file source : Text} {word semicolon ending : Token} {ts : List Token}
    {e : Expr} (lexed : Lexer.tokens file source = ⟨word :: (ts ++ [semicolon, ending]), none⟩)
    (print : word.kind = .kwPrint) (closing : semicolon.kind = .semicolon)
    (last : ending.kind = .eof) (expression : Expression .unary ts e) (readable : e.Readable)
    (small : (internAll [] (e.fragment []).uses).length ≤ Chunk.maxConstants)
    (straight : ∀ a ∈ (e.fragment []).code, a.distance = 0) :
    ∃ p, compile file source = .ok p ∧
      p.Holds (program [.statement (.print word e semicolon)]) := by
  have derived : Derives (word :: (ts ++ [semicolon, ending]))
      [.statement (.print word e semicolon)] := by
    have statement := Statement.print print (expression.loosen (by decide) (by decide)) closing
    have running := statement.running.takeWhile_append last []
    rw [List.cons_append, List.append_assoc] at running
    refine ⟨?_, rfl⟩
    rw [show word :: (ts ++ [semicolon, ending]) =
      word :: (ts ++ ([semicolon] ++ [ending])) from rfl, running]
    have whole := Program.cons (.statement statement) .nil
    rwa [List.append_nil] at whole
  have rules : Rules [.statement (.print word e semicolon)] := by
    refine ⟨?_, ?_, ?_, ?_, ?_⟩
    · simpa [exprsAll, Decl.exprs, Stmt.exprs] using readable
    · simp [blocksAll, Decl.blocks, Stmt.blocks]
    · simp [peakAll, Decl.peak, Stmt.peak, Decl.extend]
    · rwa [pool_print]
    · rw [code_print]
      intro a mem
      rcases List.mem_append.1 mem with mem | mem
      · rw [straight a mem]
        exact Nat.zero_le _
      · have plain : ∀ a ∈ [Asm.plain .print, .plain .finish], a.distance ≤ Draft.maxJump := by decide
        exact plain a mem
  have along := derived.compiled file
  cases compiled : compileTokens file (word :: (ts ++ [semicolon, ending])) with
  | ok p =>
    rw [compiled] at along
    exact ⟨p, by rw [compile, lexed]; exact compiled, along.2.2⟩
  | error faults =>
    rw [compiled] at along
    exact absurd rules along

theorem value_of_word {t : Token} {kind : TokenKind} {lexeme : Text} (word : t.word = (kind, lexeme)) :
    t.value? = Token.value? ⟨kind, lexeme, {}⟩ := by
  obtain ⟨kind', lexeme', span⟩ := t
  cases word
  rfl

structure Prints (p : StackScript.Program) (v : Value) (change : List Asm) : Prop where
  constants : p.chunk.constants = #[v]
  holds : ∃ f : Fragment, p.Holds f ∧ f.code = .load v :: change ++ [.plain .print, .plain .finish]

theorem compile_operand (file : Text) {literal : Text} (words : List (TokenKind × Text)) {v : Value}
    {change : List Asm}
    (cuts : Cuts (0x20 :: (literal ++ [0x3b])) (words ++ [(.semicolon, [0x3b]), (.eof, [])]))
    (reads : ∀ ts : List Token, ts.map Token.word = words → ∃ e, Expression .unary ts e ∧ e.Readable ∧
      (e.fragment []).uses = [v] ∧ (e.fragment []).code = .load v :: change)
    (straight : ∀ a ∈ change, a.distance = 0) :
    ∃ p, compile file (utf8 "print " ++ (literal ++ utf8 ";")) = .ok p ∧ Prints p v change := by
  obtain ⟨ts, lexed, all⟩ := tokens_of_cuts file (cuts_print cuts)
  obtain ⟨word, ts, rfl, print, all⟩ := List.map_eq_cons_iff.1 all
  obtain ⟨ts, rest, rfl, body, all⟩ := List.map_eq_append_iff.1 all
  obtain ⟨semicolon, rest, rfl, closing, all⟩ := List.map_eq_cons_iff.1 all
  obtain ⟨ending, rest, rfl, last, all⟩ := List.map_eq_cons_iff.1 all
  obtain rfl := List.map_eq_nil_iff.1 all
  obtain ⟨e, expression, readable, uses, code⟩ := reads ts body
  have pooled : internAll [] (e.fragment []).uses = [v] := by
    rw [uses]
    cases v <;> rfl
  have small : (internAll [] (e.fragment []).uses).length ≤ Chunk.maxConstants := by
    rw [pooled, List.length_singleton]
    decide
  obtain ⟨p, compiled, holds⟩ := compile_print lexed (congrArg Prod.fst print)
    (congrArg Prod.fst closing) (congrArg Prod.fst last) expression readable
    small (by rw [code]; exact List.forall_mem_cons.2 ⟨rfl, straight⟩)
  refine ⟨p, compiled, ?_, _, holds, ?_⟩
  · have pool := holds.pool
    rw [pool_print, pooled] at pool
    exact Array.toList_inj.1 pool
  · rw [code_print, code]

theorem reads_literal {kind : TokenKind} {lexeme : Text} {v : Value}
    (pooled : kind = .string ∨ kind = .int) (value : Token.value? ⟨kind, lexeme, {}⟩ = some v)
    {t : Token} (word : t.word = (kind, lexeme)) :
    Expression .unary [t] (.literal t) ∧ Expr.Readable (.literal t) ∧
      (Expr.fragment [] (.literal t)).uses = [v] ∧
      (Expr.fragment [] (.literal t)).code = [.load v] := by
  have named : t.kind = kind := congrArg Prod.fst word
  have known : t.kind ∈ literals := by
    rw [named]
    rcases pooled with rfl | rfl <;> decide
  have denoted : t.value? = some v := (value_of_word word).trans value
  have fragment : Expr.fragment [] (.literal t) = constant v := by
    rw [Expr.fragment, Fragment.literal, denoted, named]
    rcases pooled with rfl | rfl <;> rfl
  refine ⟨.literal known, ?_, by rw [fragment]; rfl, by rw [fragment]; rfl⟩
  simp [Expr.Readable, Expr.literals, denoted]

theorem compile_string (file : Text) {quote : UInt8} {text spelling : Text} (known : quote ∈ quotes)
    (spells : Spells quote text spelling) :
    ∃ p, compile file (utf8 "print " ++ (quote :: (spelling ++ [quote]) ++ utf8 ";")) = .ok p ∧
      Prints p (.string text) [] := by
  have value : Token.value? ⟨.string, quote :: (spelling ++ [quote]), {}⟩ = some (.string text) := by
    simp [Token.value?, spells.unescape, Except.toOption]
  refine compile_operand file [_] (cuts_string known spells.inside) (fun ts words => ?_) (by simp)
  obtain ⟨t, rfl, word⟩ := List.map_eq_singleton_iff.1 words
  exact ⟨_, reads_literal (.inl rfl) value word⟩

theorem value_natural {n : Nat} (fits : n < 0x8000000000000000) :
    Token.value? ⟨.int, natural n, {}⟩ = some (.int (Int64.ofInt n)) := by
  simp [Token.value?, readInt64_natural fits]

theorem compile_natural (file : Text) {n : Nat} (fits : n < 0x8000000000000000) :
    ∃ p, compile file (utf8 "print " ++ (natural n ++ utf8 ";")) = .ok p ∧
      Prints p (.int (Int64.ofInt n)) [] := by
  refine compile_operand file [_] (cuts_natural gap_space n) (fun ts words => ?_) (by simp)
  obtain ⟨t, rfl, word⟩ := List.map_eq_singleton_iff.1 words
  exact ⟨_, reads_literal (.inr rfl) (value_natural fits) word⟩

theorem compile_negative (file : Text) {n : Nat} (fits : n < 0x8000000000000000) :
    ∃ p, compile file (utf8 "print " ++ (0x2d :: natural n ++ utf8 ";")) = .ok p ∧
      Prints p (.int (Int64.ofInt n)) [.plain .negate] := by
  refine compile_operand file [_, _] (cuts_negative n) (fun ts words => ?_) (by simp [Asm.distance])
  obtain ⟨minus, ts, rfl, sign, words⟩ := List.map_eq_cons_iff.1 words
  obtain ⟨t, rfl, word⟩ := List.map_eq_singleton_iff.1 words
  have kind : minus.kind = .minus := congrArg Prod.fst sign
  obtain ⟨expression, readable, uses, code⟩ := reads_literal (.inr rfl) (value_natural fits) word
  refine ⟨.unary minus (.literal t), .unary (.inl kind) expression, readable, ?_, ?_⟩
  · rw [Expr.fragment, uses_append, uses]
    simp [blaming]
  · rw [Expr.fragment, code_append, code]
    simp [blaming, Opcode.ofUnary, kind]

/-! Runs -/

theorem Asm.step_of_room {a : Asm} {m : Machine} (allowed : m.limit = 0 ∨ m.count < m.limit)
    (enough : a.op.needs ≤ m.stack.size) (room : a.op.grows = true → m.stack.size < m.maxStack) :
    a.step m = a.perform (a.pass m) := by
  rw [Asm.step, if_neg, if_neg (Nat.not_lt.2 enough), if_neg]
  · rfl
  · simpa using room
  · simpa using fun positive => by omega

namespace Session

open Machine

variable {p : StackScript.Program} {f : Fragment} {inside : Inside} {k : Nat} {debug : Bool} {a : Asm}
  {m m' : Machine} {s : Session}

theorem step_at (holds : p.Holds f) (stands : At f.code m.ip a) (goes : a.step m = .next m')
    (s : Session) :
    ∃ s', Step (host inside k debug) p (m, s) (m', s') ∧ s'.mute = s.mute := by
  rcases fetch_at holds stands with ⟨n, ready, executes⟩ | ⟨fault, _, stopped⟩
  · exact ⟨_, .next ready (executes.trans goes), mute_trace _ _ _ _ _ _ _⟩
  · cases goes.symm.trans stopped

inductive Changes : List Asm → Value → Value → Prop where
  | none (v : Value) : Changes [] v v
  | negate {v w : Value} : Value.negate v = .ok w → Changes [.plain .negate] v w

structure Arrived (start m : Machine) (code : List Asm) (w : Value) : Prop where
  ip : m.ip = total code
  stack : m.stack = #[w]
  count : m.count = code.length
  limit : m.limit = start.limit

theorem step_negate {v w : Value} (allowed : m.limit = 0 ∨ m.count < m.limit)
    (value : m.stack = #[v]) (changed : Value.negate v = .ok w) :
    (Asm.plain .negate).step m = .next (((Asm.plain .negate).pass m).drop.push w) := by
  have top : ((Asm.plain .negate).pass m).top = v := by simp [top, Asm.pass, value]
  rw [step_of_room allowed (by simp [value, Asm.op, Opcode.needs]) (by simp [Asm.op, Opcode.grows])]
  change unary Value.negate _ = _
  simp only [unary, top, changed]

theorem steps_to_value {v w : Value} {change rest : List Asm} (holds : p.Holds f)
    (code : f.code = .load v :: change ++ rest) (changes : Changes change v w)
    (limit : m.limit = 0 ∨ 4 ≤ m.limit) (room : 1 ≤ m.maxStack) (s : Session) :
    ∃ m' s', Steps (host inside k debug) p (change.length + 1) (m.load p, s) (m', s') ∧
      s'.mute = s.mute ∧ Arrived m m' (.load v :: change) w := by
  let loaded : Machine := ((Asm.load v).pass (m.load p)).push v
  have loads : (Asm.load v).step (m.load p) = .next loaded := by
    refine step_of_room ?_ (Nat.zero_le _) fun _ => room
    change m.limit = 0 ∨ 0 < m.limit
    omega
  have first : At f.code (m.load p).ip (.load v) := ⟨[], change ++ rest, code, rfl⟩
  obtain ⟨s₁, step, same⟩ := @step_at _ _ inside k debug _ _ _ holds first loads s
  cases changes with
  | none => exact ⟨_, s₁, .cons step (.none _), same, rfl, rfl, rfl, rfl⟩
  | negate changed =>
    have negates := @step_negate loaded v _ (by change m.limit = 0 ∨ 1 < m.limit; omega) rfl changed
    have second : At f.code loaded.ip (.plain .negate) := ⟨[.load v], rest, code, rfl⟩
    obtain ⟨s₂, step', same'⟩ := @step_at _ _ inside k debug _ _ _ holds second negates s₁
    exact ⟨_, s₂, .cons step (.cons step' (.none _)), same'.trans same, rfl, rfl, rfl, rfl⟩

theorem step_print {w : Value} (allowed : m.limit = 0 ∨ m.count < m.limit) (value : m.stack = #[w]) :
    (Asm.plain .print).step m = .print (line w.display) ((Asm.plain .print).pass m).drop := by
  have top : ((Asm.plain .print).pass m).top = w := by simp [top, Asm.pass, value]
  rw [step_of_room allowed (by simp [value, Asm.op, Opcode.needs]) (by simp [Asm.op, Opcode.grows])]
  change Effect.print (line (Machine.top _).display) _ = _
  rw [top]

theorem write_of_open (unrefused : s.gate.refusal = none) (k : Nat) (debug : Bool) (m : Machine)
    (t : Text) : ∃ s', (host undisturbed k debug).write m t s = (.ok (), s') ∧
      ∀ c, s'.output c = s.output c ++ if c = s.channelOf k then t else [] := by
  have channel : (s.modify k ({ · with machine := m })).channelOf k = s.channelOf k := by
    rw [channelOf, interpreters_modify, if_pos rfl, channelOf]
    cases s.interpreters[k]? <;> rfl
  have written := writeFrom_of_takes
    (@takes_of_unrefused (s.modify k ({ · with machine := m })) unrefused k) t
  rw [channel] at written
  obtain ⟨s', done, shown⟩ := written
  refine ⟨s', done, fun c => ?_⟩
  rw [shown c]
  cases c <;> rfl

theorem print_at {w : Value} (holds : p.Holds f) (stands : At f.code m.ip (.plain .print))
    (allowed : m.limit = 0 ∨ m.count < m.limit) (value : m.stack = #[w])
    (unrefused : s.gate.refusal = none) :
    ∃ s', Step (host undisturbed k debug) p (m, s) (((Asm.plain .print).pass m).drop, s') ∧
      ∀ c, s'.output c = s.output c ++ if c = s.channelOf k then line w.display else [] := by
  have prints := step_print allowed value
  rcases fetch_at holds stands with ⟨n, ready, executes⟩ | ⟨fault, _, stopped⟩
  · have same := mute_trace undisturbed k debug p m ⟨.print, n⟩ s
    have unrefused := (refusal_of_bare (bare_of_mute same)).trans unrefused
    obtain ⟨s', written, shown⟩ := write_of_open unrefused k debug ((Asm.plain .print).pass m).drop
      (line w.display)
    refine ⟨s', .print ready (executes.trans prints) written, fun c => ?_⟩
    rw [shown c, output_of_mute same, channelOf_of_bare (bare_of_mute same)]
  · cases prints.symm.trans stopped

theorem finish_at (holds : p.Holds f) (stands : At f.code m.ip (.plain .finish))
    (allowed : m.limit = 0 ∨ m.count < m.limit) (s : Session) :
    ∃ s', Stops (host inside k debug) p (m, s) (.finished, (Asm.plain .finish).pass m, s') ∧
      s'.mute = s.mute := by
  have ends : (Asm.plain .finish).step m = .finish ((Asm.plain .finish).pass m) :=
    step_of_room allowed (Nat.zero_le _) (by simp [Asm.op, Opcode.grows])
  rcases fetch_at holds stands with ⟨n, ready, executes⟩ | ⟨fault, _, stopped⟩
  · exact ⟨_, .finish ready (executes.trans ends), mute_trace _ _ _ _ _ _ _⟩
  · cases ends.symm.trans stopped

/-- A program that prints one value ends well, with the value on the channel of its interpreter. -/
theorem run_printing {v w : Value} {change : List Asm} (prints : Prints p v change)
    (changes : Changes change v w) (limit : m.limit = 0 ∨ 4 ≤ m.limit) (room : 1 ≤ m.maxStack)
    (unrefused : s.gate.refusal = none) {fuel : Nat} (enough : 4 ≤ fuel) :
    ∃ m' s', run (host undisturbed k debug) fuel p m s = (.finished, m', s') ∧
      ∀ c, s'.output c = s.output c ++ if c = s.channelOf k then line w.display else [] := by
  obtain ⟨_, f, holds, code⟩ := prints
  obtain ⟨m₁, s₁, steps, same, ip, stack, count, bound⟩ :=
    @steps_to_value _ _ undisturbed k debug m _ _ _ _ holds code changes limit room s
  have few : change.length ≤ 1 := by cases changes <;> simp
  rw [List.length_cons] at count
  have stands : At f.code m₁.ip (.plain .print) := by
    rw [code, ip]
    exact .here _ _ _
  have last : At f.code (m₁.ip + 1) (.plain .finish) := by
    refine ⟨.load v :: change ++ [.plain .print], [], by simp [code], ?_⟩
    rw [ip, total_append]
    rfl
  have open₁ := (refusal_of_bare (bare_of_mute same)).trans unrefused
  obtain ⟨s₂, step, shown⟩ := @print_at _ _ k debug m₁ s₁ w holds stands (by omega) stack open₁
  obtain ⟨s₃, stops, same₃⟩ := @finish_at _ _ undisturbed k debug ((Asm.plain .print).pass m₁).drop
    holds last (by change m₁.limit = 0 ∨ m₁.count + 1 < m₁.limit; omega) s₂
  obtain ⟨rest, rfl⟩ : ∃ rest, fuel = change.length + 1 + (rest + 1 + 1) :=
    ⟨fuel - (change.length + 3), by omega⟩
  refine ⟨(Asm.plain .finish).pass ((Asm.plain .print).pass m₁).drop, s₃, ?_, fun c => ?_⟩
  · rw [run_eq_cleared, runFrom_steps steps, runFrom_step step, runFrom_stops stops]
    rfl
  · rw [output_of_mute same₃, shown c, output_of_mute same, channelOf_of_bare (bare_of_mute same)]

/-- An interpreter that takes in an input, has what it takes to run four instructions, and shows
nothing on its channel but what they print. -/
structure Free (k : Nat) (i : Interpreter) (s : Session) : Prop where
  found : s.interpreters[k]? = some i
  idle : i.busy = false
  tokens : i.options.printTokens = false
  unrefused : s.gate.refusal = none
  limit : i.machine.limit = 0 ∨ 4 ≤ i.machine.limit
  room : 1 ≤ i.machine.maxStack
  fuel : 4 ≤ s.fuel

/-- An input succeeds, and all that it prints is a text on the channel of its interpreter. -/
structure Shows (k : Nat) (file source text : Text) (s : Session) : Prop where
  outcome : (s.interpret undisturbed k file source).1 = .ok
  output : ∀ c, (s.interpret undisturbed k file source).2.output c =
    s.output c ++ if c = s.channelOf k then text else []

theorem Free.shows {i : Interpreter} {file source : Text} {v w : Value} {change : List Asm}
    (free : s.Free k i) (compiled : compile file source = .ok p) (prints : Prints p v change)
    (changes : Changes change v w) : s.Shows k file source (line w.display) := by
  obtain ⟨found, idle, tokens, unrefused, limit, room, fuel⟩ := free
  have opened : s.opened undisturbed k file source = s.modify k (·.accept file source) := by
    simp [Session.opened, found, tokens]
  have there : (s.modify k (·.accept file source)).interpreters[k]? = some (i.accept file source) := by
    rw [interpreters_modify, if_pos rfl, found]
    rfl
  have channel : (s.modify k (·.accept file source)).channelOf k = s.channelOf k := by
    rw [channelOf, there, channelOf, found]
    rfl
  obtain ⟨m', s', ran, shown⟩ := @run_printing p k i.options.debug i.machine
    (s.modify k (·.accept file source)) v w change prints changes limit room unrefused s.fuel fuel
  have result : (s.opened undisturbed k file source).ran undisturbed k p = (.finished, m', s') := by
    rw [opened, Session.ran, machineAt_of_found there, hostAt, there]
    exact ran
  have interpreted : s.interpret undisturbed k file source =
      (.ok, release k (s'.modify k ({ · with machine := m' }))) := by
    rw [interpret_of_program found idle compiled (by rw [opened]; exact there), result]
    rfl
  refine ⟨by rw [interpreted], fun c => ?_⟩
  have kept := shown c
  rw [channel, output_modify] at kept
  rw [interpreted, release, output_modify, output_modify]
  exact kept

end Session

theorem Session.Free.shows_int {k : Nat} {i : Interpreter} {s : Session} (free : s.Free k i)
    (file : Text) (n : Int64) (above : -0x8000000000000000 < n.toInt) :
    s.Shows k file (utf8 "print " ++ (decimal n.toInt ++ utf8 ";")) (line (decimal n.toInt)) := by
  have below := n.toInt_lt
  cases value : n.toInt with
  | ofNat j =>
    have value : n.toInt = j := value
    have same : Int64.ofInt j = n := by rw [← value, Int64.ofInt_toInt]
    obtain ⟨p, compiled, prints⟩ := @compile_natural file j (by omega)
    have shows := free.shows compiled prints (.none _)
    rwa [same, Value.display, value] at shows
  | negSucc j =>
    have value : n.toInt = -((j + 1 : Nat) : Int) := value
    have same : -Int64.ofInt ((j + 1 : Nat) : Int) = n := by
      rw [← Int64.ofInt_neg, ← value, Int64.ofInt_toInt]
    obtain ⟨p, compiled, prints⟩ := @compile_negative file (j + 1) (by omega)
    have shows := free.shows compiled prints (.negate rfl)
    rwa [same, Value.display, value] at shows

/-- Printed scalars read back: an integer in its numeral, a string in any of its spellings. -/
theorem printed_scalars_read_back {k : Nat} {i : Interpreter} {s : Session} (free : s.Free k i)
    (file : Text) :
    (∀ n : Int64, -0x8000000000000000 < n.toInt →
      s.Shows k file (utf8 "print " ++ (decimal n.toInt ++ utf8 ";")) (line (decimal n.toInt))) ∧
    ∀ quote ∈ quotes, ∀ text spelling, Spells quote text spelling →
      let literal := quote :: (spelling ++ [quote])
      let source := utf8 "print " ++ (literal ++ utf8 ";")
      (∃ ts, Lexer.tokens file source = ⟨ts, none⟩ ∧ ts.map Token.word =
        [(.kwPrint, utf8 "print"), (.string, literal), (.semicolon, utf8 ";"), (.eof, [])]) ∧
      (∃ p, compile file source = .ok p ∧ p.chunk.constants = #[.string text]) ∧
      s.Shows k file source (line text) := by
  refine ⟨free.shows_int file, fun quote known text spelling spells => ?_⟩
  obtain ⟨p, compiled, prints⟩ := compile_string file known spells
  refine ⟨tokens_of_cuts file (cuts_print (cuts_string known spells.inside)),
    ⟨p, compiled, prints.constants⟩, ?_⟩
  exact free.shows compiled prints (.none _)

/-- A string with a line feed, a quote, a backslash and a byte that is no character, and the least
number that a literal can have, on a new interpreter. -/
theorem printed_scalars_read_back_quotes :
    Spells singleQuote [newline, singleQuote, backslash, 0xff]
        [newline, backslash, singleQuote, backslash, backslash, 0xff] ∧
      (Session.new {}).Shows 0 [] (utf8 "print '\n\\'\\\\" ++ [0xff] ++ utf8 "';")
        [newline, singleQuote, backslash, 0xff, newline] ∧
      (Session.new {}).Shows 0 [] (utf8 "print -9223372036854775807;")
        (utf8 "-9223372036854775807\n") := by
  have spells : Spells singleQuote [newline, singleQuote, backslash, 0xff]
      [newline, backslash, singleQuote, backslash, backslash, 0xff] :=
    .plain (by decide) (by decide) (.escape (by decide) (.escape (by decide)
      (.plain (by decide) (by decide) .nil)))
  have free : (Session.new {}).Free 0 (.new {}) :=
    ⟨rfl, rfl, rfl, rfl, .inl rfl, by decide, by decide⟩
  have both := printed_scalars_read_back free []
  refine ⟨spells, (both.2 singleQuote (by decide) _ _ spells).2.2, ?_⟩
  exact both.1 (Int64.ofInt (-9223372036854775807)) (by decide)

end StackScript
