import StackScript.Proofs.FaultOrder

/-! Recovery is local. What is read of a part of a text that ends in a semicolon does not depend on
what comes behind it, and what is read behind it does not depend on the part: not on its code, which
only moves what is written later, and not on its faults. -/

namespace StackScript

open Build Grammar

/-- How many constants some tokens can ask for: one for each name and each literal. -/
def asks : List Token → Nat
  | [] => 0
  | t :: ts => t.kind.needs + asks ts

theorem asks_cons (t : Token) (ts : List Token) : asks (t :: ts) = t.kind.needs + asks ts := rfl

theorem asks_append (ts us : List Token) : asks (ts ++ us) = asks ts + asks us := by
  induction ts with
  | nil => exact (Nat.zero_add _).symm
  | cons t ts ih => rw [List.cons_append, asks_cons, asks_cons, ih, Nat.add_assoc]

/-- What two texts still have in common: either everything, or all up to a last semicolon, behind
which they may differ but have no further arm of a branch. -/
inductive Shared (X Y : List Token) : List Token → Prop where
  | whole {u : List Token} : X = [] → Y = [] → ¬ Running u → Shared X Y u
  | part {u : List Token} : ¬ Running X → ¬ Running Y →
      (∀ t ∈ X.head?.toList ++ Y.head?.toList, t.kind ≠ .kwElif ∧ t.kind ≠ .kwElse) →
      (∀ t ∈ u, t.kind ≠ .leftBrace ∧ t.kind ≠ .eof) →
      (∀ t ∈ u.getLast?, t.kind = .semicolon) → Shared X Y u

namespace Shared

variable {X Y u v : List Token} {t : Token}

theorem closed (h : Shared X Y u) : ¬ Running (u ++ X) ∧ ¬ Running (u ++ Y) := by
  cases h with
  | whole none none' closed =>
    rw [none, none', List.append_nil]
    exact ⟨closed, closed⟩
  | part closed closed' =>
    rw [running_append, running_append]
    exact ⟨closed ∘ And.right, closed' ∘ And.right⟩

theorem tail (h : Shared X Y (t :: u)) (running : t.kind ≠ .eof) :
    Shared X Y u ∧ (u = [] → t.kind = .semicolon) := by
  cases h with
  | whole none none' closed =>
    have more : ¬ Running u := fun more => closed ((running_cons _ _).2 ⟨running, more⟩)
    refine ⟨.whole none none' more, ?_⟩
    rintro rfl
    exact absurd (by simp [Running]) more
  | part closed closed' fresh plain last =>
    refine ⟨.part closed closed' fresh (fun x mem => plain x (List.mem_cons_of_mem _ mem)) ?_, ?_⟩
    · intro x mem
      refine last x ?_
      rw [List.getLast?_cons, mem]
      rfl
    · rintro rfl
      exact last t rfl

theorem ne_nil (h : Shared X Y u) : u ++ X ≠ [] ∧ u ++ Y ≠ [] := by
  have some {ts : List Token} (closed : ¬ Running ts) : ts ≠ [] := by
    rintro rfl
    exact closed (by simp [Running])
  exact ⟨some h.closed.1, some h.closed.2⟩

theorem fresh (h : Shared X Y []) {t : Token} (next : t ∈ X.head? ∨ t ∈ Y.head?) :
    t.kind ≠ .kwElif ∧ t.kind ≠ .kwElse := by
  cases h with
  | whole none none' closed => exact absurd (by simp [Running]) closed
  | part closed closed' fresh => exact fresh t (by simpa using next)

end Shared

/-- Two drafts that have the same to read, up to where their texts differ, and write the same code,
one of them behind more code and more faults. Both pools have room for whatever is still asked. -/
structure Beside (X Y : List Token) (k : Nat) (F : List Diagnostic) (recovering : Bool) (c : Nat)
    (u : List Token) (d e : Draft) : Prop where
  shared : Shared X Y u
  tokens : d.tokens = u ++ X
  tokens' : e.tokens = u ++ Y
  scope : d.scope = e.scope
  flat : X ≠ [] → d.scope = {}
  mode : d.recovering = recovering
  mode' : e.recovering = recovering
  faults : d.faults = e.faults ++ F
  size : d.chunk.code.size = e.chunk.code.size + k
  room : d.chunk.constants.size + asks d.tokens + c ≤ Chunk.maxConstants
  room' : e.chunk.constants.size + asks e.tokens + c ≤ Chunk.maxConstants

/-- What writing `n` bytes of code and at most `a` constants does to a draft. -/
structure Draft.Adds (n a : Nat) (d d' : Draft) : Prop where
  same : d.SameReading d'
  scope : d'.scope = d.scope
  constants : d'.chunk.constants.size ≤ d.chunk.constants.size + a
  size : d'.chunk.code.size = d.chunk.code.size + n

namespace Beside

variable {X Y u : List Token} {k : Nat} {F : List Diagnostic} {r : Bool}
  {c n a : Nat} {d d' e e' : Draft}

theorem adds (h : Beside X Y k F r (c + a) u d e) (left : d.Adds n a d') (right : e.Adds n a e') :
    Beside X Y k F r c u d' e' := by
  obtain ⟨⟨tokens, faults, recovering, _⟩, scope, constants, size⟩ := left
  obtain ⟨⟨tokens', faults', recovering', _⟩, scope', constants', size'⟩ := right
  have room := h.room
  have room' := h.room'
  have length := h.size
  refine ⟨h.shared, tokens.trans h.tokens, tokens'.trans h.tokens', ?_, ?_, recovering.trans h.mode,
    recovering'.trans h.mode', ?_, ?_, ?_, ?_⟩
  · rw [scope, scope', h.scope]
  · rw [scope]
    exact h.flat
  · rw [faults, faults', h.faults]
  · omega
  · rw [tokens]
    omega
  · rw [tokens']
    omega

theorem spend (h : Beside X Y k F r c u d e) (less : n ≤ c) : Beside X Y k F r n u d e :=
  { h with
    room := Nat.le_trans (Nat.add_le_add_left less _) h.room
    room' := Nat.le_trans (Nat.add_le_add_left less _) h.room' }

theorem currents {t : Token} {v : List Token} (h : Beside X Y k F r c (t :: v) d e) :
    d.current = t ∧ e.current = t :=
  ⟨Draft.current_of_tokens h.tokens, Draft.current_of_tokens h.tokens'⟩

theorem left (h : Beside X Y k F r c u d e) :
    d.Left d.tokens.length ∧ e.Left e.tokens.length := by
  obtain ⟨closed, closed'⟩ := h.shared.closed
  rw [← h.tokens] at closed
  rw [← h.tokens'] at closed'
  exact ⟨⟨closed, Nat.le_refl _⟩, ⟨closed', Nat.le_refl _⟩⟩

theorem advance {t : Token} {v : List Token} (h : Beside X Y k F r c (t :: v) d e)
    (running : t.kind ≠ .eof) : Beside X Y k F r (c + t.kind.needs) v d.advance e.advance := by
  obtain ⟨shared, _⟩ := h.shared.tail running
  have tokens : d.advance.tokens = v ++ X := Draft.tokens_advance h.tokens running shared.ne_nil.1
  have tokens' : e.advance.tokens = v ++ Y := Draft.tokens_advance h.tokens' running shared.ne_nil.2
  have room := h.room
  have room' := h.room'
  rw [h.tokens, List.cons_append, asks_cons] at room
  rw [h.tokens', List.cons_append, asks_cons] at room'
  obtain ⟨faults, recovering⟩ := d.advance_faults
  obtain ⟨faults', recovering'⟩ := e.advance_faults
  refine ⟨shared, tokens, tokens', ?_, ?_, recovering.trans h.mode, recovering'.trans h.mode', ?_, ?_,
    ?_, ?_⟩
  · rw [d.advance_scope, e.advance_scope, h.scope]
  · rw [d.advance_scope]
    exact h.flat
  · rw [faults, faults', h.faults]
  · rw [d.advance_chunk, e.advance_chunk, h.size]
  · rw [tokens, d.advance_chunk]
    omega
  · rw [tokens', e.advance_chunk]
    omega

theorem report (h : Beside X Y k F false c u d e) (t : Token) (fault : SyntaxFault) :
    Beside X Y k F true 0 u (d.report t fault) (e.report t fault) := by
  have h := h.spend (Nat.zero_le c)
  rw [Draft.report_of_quiet h.mode, Draft.report_of_quiet h.mode']
  exact ⟨h.shared, h.tokens, h.tokens', h.scope, h.flat, rfl, rfl,
    congrArg (Diagnostic.atSpan t.span fault.message :: ·) h.faults, h.size, h.room, h.room'⟩

theorem rescope (h : Beside X Y k F r c u d e) (f : Scope → Scope) (flat : X ≠ [] → f {} = {}) :
    Beside X Y k F r c u { d with scope := f d.scope } { e with scope := f e.scope } := by
  refine ⟨h.shared, h.tokens, h.tokens', congrArg f h.scope, fun part => ?_, h.mode, h.mode', h.faults,
    h.size, h.room, h.room'⟩
  dsimp only
  rw [h.flat part]
  exact flat part

theorem hasRoom (h : Beside X Y k F r (c + 1) u d e) :
    d.chunk.hasRoom = true ∧ e.chunk.hasRoom = true := by
  have room := h.room
  have room' := h.room'
  simp only [Chunk.hasRoom, decide_eq_true_eq]
  omega

end Beside

namespace Draft.Adds

variable {d d' d'' : Draft} {n m a b : Nat}

theorem refl (d : Draft) : d.Adds 0 0 d := ⟨⟨rfl, rfl, rfl, rfl⟩, rfl, Nat.le_refl _, rfl⟩

theorem trans (h : d.Adds n a d') (h' : d'.Adds m b d'') : d.Adds (n + m) (a + b) d'' := by
  obtain ⟨⟨tokens, faults, recovering, previous⟩, scope, constants, size⟩ := h
  obtain ⟨⟨tokens', faults', recovering', previous'⟩, scope', constants', size'⟩ := h'
  exact ⟨⟨tokens'.trans tokens, faults'.trans faults, recovering'.trans recovering,
    previous'.trans previous⟩, scope'.trans scope, by omega, by omega⟩

theorem mono (h : d.Adds n a d') (le : a ≤ b) : d.Adds n b d' :=
  { h with constants := Nat.le_trans h.constants (Nat.add_le_add_left le _) }

theorem write (d : Draft) (b : UInt8) (line : Int) : d.Adds 1 0 (d.write b line) :=
  ⟨⟨rfl, rfl, rfl, rfl⟩, rfl, Nat.le_refl _, Array.size_push _⟩

theorem writeWide (d : Draft) (n : Nat) (line : Int) : d.Adds 2 0 (d.writeWide n line) :=
  (write d _ line).trans (write _ _ line)

theorem recordSpan (d : Draft) (start : Nat) (span : Span) : d.Adds 0 0 (d.recordSpan start span) :=
  ⟨⟨rfl, rfl, rfl, rfl⟩, rfl, Nat.le_refl _, rfl⟩

theorem emitAt (d : Draft) (op : Opcode) (t : Token) : d.Adds 1 0 (d.emitAt op t) :=
  (write d _ _).trans (recordSpan _ _ _)

theorem emitByteAt (d : Draft) (op : Opcode) (n : Nat) (t : Token) :
    d.Adds 2 0 (d.emitByteAt op n t) :=
  ((write d _ _).trans (write _ _ _)).trans (recordSpan _ _ _)

theorem emitWideAt (d : Draft) (op : Opcode) (n : Nat) (t : Token) :
    d.Adds 3 0 (d.emitWideAt op n t) :=
  ((write d _ _).trans (writeWide _ _ _)).trans (recordSpan _ _ _)

theorem emitWide (d : Draft) (op : Opcode) (n : Nat) : d.Adds 3 0 (d.emitWide op n) :=
  (write d _ _).trans (writeWide _ _ _)

theorem patchWide (d : Draft) (i n : Nat) :
    d.Adds 0 0 { d with chunk := d.chunk.patchWide i n } :=
  ⟨⟨rfl, rfl, rfl, rfl⟩, rfl, Nat.le_refl _, by simp [Chunk.patchWide]⟩

theorem addConstant (d : Draft) (v : Value) (names : Std.TreeMap Text Nat compare) :
    d.Adds 0 1 { d with chunk := d.chunk.addConstant v, names } :=
  ⟨⟨rfl, rfl, rfl, rfl⟩, rfl, Nat.le_of_eq (Array.size_push _), rfl⟩

theorem writeConstant (d : Draft) (v : Value) (line : Int) :
    d.Adds 3 1 { d with chunk := d.chunk.writeConstant v line } := by
  have added := ((addConstant d v d.names).trans (write _ Opcode.constant.toByte line)).trans
    (writeWide _ d.chunk.constants.size line)
  exact added

theorem emitPops (n : Nat) (d : Draft) : d.Adds n 0 (Draft.emitPops n d) := by
  induction n generalizing d with
  | zero => exact refl d
  | succ n ih =>
    have pops := (write d Opcode.pop.toByte d.line).trans (ih (d.emit .pop))
    rwa [Nat.add_comm 1] at pops

theorem still (h : d.Adds n a d') : d.Still d' :=
  ⟨h.same.tokens, h.same.faults, congrArg Scope.depth h.scope⟩

end Draft.Adds

theorem run_nameConstant_of_room {d : Draft} {t : Token} (room : d.chunk.hasRoom = true) :
    ∃ i d', (nameConstant t).run d = .ok i d' ∧ d.Adds 0 1 d' := by
  rw [run_nameConstant]
  cases d.names[t.lexeme]? with
  | some i => exact ⟨i, d, rfl, (Draft.Adds.refl d).mono (Nat.zero_le 1)⟩
  | none =>
    rw [room]
    exact ⟨_, _, rfl, .addConstant _ _ _⟩

/-- Two drafts that have the same to read are in step while the shared part lasts. -/
def beside (X Y : List Token) (k : Nat) (F : List Diagnostic) : Survey where
  pairing _ :=
    { begins := fun c d e => ∃ t u, Beside X Y k F false c (t :: u) d e
      runs := fun s c d e => ∃ u, Beside X Y k F false c u d e ∧ d.previous = e.previous ∧
        (u = [] → s = .ended ∧ d.previous.kind = .semicolon)
      lost := fun d e => ∃ u, Beside X Y k F true 0 u d e ∧ d.previous = e.previous ∧
        (u = [] → d.previous.kind = .semicolon)
      known := fun _ _ t u => t = u
      offset := fun i j => i = j + k
      stored := fun x y => match x, y with
        | .slot n, .slot m => n = m
        | .global _, .global _ => True
        | _, _ => False }
  between _ d e := ∃ u, Beside X Y k F false 0 u d e ∧ (0 < d.scope.depth → d.previous = e.previous)

section

variable {X Y : List Token} {k : Nat} {F : List Diagnostic}

theorem beside_runs {s : Stage} {c n a : Nat} {d d' e e' : Draft} {j : List Activation}
    (h : ((beside X Y k F).pairing j).runs s (c + a) d e) (left : d.Adds n a d')
    (right : e.Adds n a e') : ((beside X Y k F).pairing j).runs s c d' e' := by
  obtain ⟨u, besides, previous, last⟩ := h
  refine ⟨u, besides.adds left right, ?_, ?_⟩
  · rw [left.same.previous, right.same.previous, previous]
  · rw [left.same.previous]
    exact last

theorem beside_read {s : Stage} {c : Nat} {d e : Draft} {t : Token} {u : List Token}
    {j : List Activation} (h : Beside X Y k F false c (t :: u) d e) (running : t.kind ≠ .eof)
    (goes : t.kind = .semicolon → s = .ended) :
    ((beside X Y k F).pairing j).runs s (c + t.kind.needs) d.advance e.advance := by
  obtain ⟨current, current'⟩ := h.currents
  refine ⟨u, h.advance running, ?_, fun none => ?_⟩
  · rw [d.advance_previous, e.advance_previous, current, current']
  · have last := (h.shared.tail running).2 none
    rw [d.advance_previous, current]
    exact ⟨goes last, last⟩

theorem beside_lost {c : Nat} {u : List Token} {d e : Draft} {t : Token} {fault : SyntaxFault}
    {j : List Activation} (h : Beside X Y k F false c u d e) (previous : d.previous = e.previous)
    (last : u = [] → d.previous.kind = .semicolon) :
    ((beside X Y k F).pairing j).lost (d.report t fault) (e.report t fault) := by
  refine ⟨u, h.report t fault, ?_, ?_⟩
  · rw [d.report_previous, e.report_previous, previous]
  · rw [d.report_previous]
    exact last

theorem beside_write {s : Stage} {c n : Nat} {d d' e e' : Draft} {j : List Activation}
    (h : ((beside X Y k F).pairing j).runs s c d e) (left : d.Adds n 0 d')
    (right : e.Adds n 0 e') : ((beside X Y k F).pairing j).runs s c d' e' :=
  beside_runs (a := 0) h left right

theorem beside_refuse {c : Nat} {d e : Draft} {fault : SyntaxFault} {j : List Activation}
    (h : ((beside X Y k F).pairing j).begins c d e) :
    ((beside X Y k F).pairing j).lost (d.advance.report d.current fault)
      (e.advance.report e.current fault) := by
  obtain ⟨t, u, besides⟩ := h
  obtain ⟨current, current'⟩ := besides.currents
  rw [current, current']
  by_cases eof : t.kind = .eof
  · rw [Draft.advance_of_eof (current ▸ eof), Draft.advance_of_eof (current' ▸ eof)]
    have stays : Beside X Y k F false c (t :: u) { d with previous := d.current }
        { e with previous := e.current } := { besides with }
    exact beside_lost stays (current.trans current'.symm) (by simp)
  · obtain ⟨v, read, previous, last⟩ := beside_read (j := j) (s := .ended) besides eof fun _ => rfl
    exact beside_lost read previous fun none => (last none).2

/-- Where the shared part ends no further arm follows for either; before that it does for both. -/
theorem beside_branch {c : Nat} {d e : Draft} {kind : TokenKind} {j : List Activation}
    (h : ((beside X Y k F).pairing j).runs .ended c d e) (arm : kind = .kwElif ∨ kind = .kwElse) :
    (d.current.kind = kind ↔ e.current.kind = kind) ∧ (d.current.kind = kind →
      ((beside X Y k F).pairing j).runs .inside c d.advance e.advance) := by
  obtain ⟨u, besides, previous, last⟩ := h
  cases u with
  | nil =>
    have other {t : Token} (next : t ∈ X.head? ∨ t ∈ Y.head?) : t.kind ≠ kind := by
      obtain ⟨elif, otherwise⟩ := besides.shared.fresh next
      rcases arm with rfl | rfl
      · exact elif
      · exact otherwise
    have different : d.current.kind ≠ kind :=
      other (.inl (congrArg List.head? besides.tokens).symm)
    have different' : e.current.kind ≠ kind :=
      other (.inr (congrArg List.head? besides.tokens').symm)
    exact ⟨⟨fun same => absurd same different, fun same => absurd same different'⟩,
      fun same => absurd same different⟩
  | cons t u =>
    obtain ⟨current, current'⟩ := besides.currents
    rw [current, current']
    refine ⟨Iff.rfl, ?_⟩
    rintro rfl
    have plain : t.kind ≠ .semicolon ∧ t.kind ≠ .eof ∧ t.kind.needs = 0 := by
      rcases arm with kind | kind
      all_goals
        rw [kind]
        decide
    have read := beside_read (j := j) (s := .inside) besides plain.2.1 fun ends => absurd ends plain.1
    rw [plain.2.2] at read
    exact read

theorem beside_pairing (j : List Activation) : ((beside X Y k F).pairing j).Laws where
  of_inside := by
    rintro c d e ⟨u, besides, _, last⟩
    cases u with
    | nil => cases (last rfl).1
    | cons t u => exact ⟨t, u, besides⟩
  scope := by
    rintro c d e ⟨t, u, besides⟩
    exact besides.scope
  current := by
    rintro c d e ⟨t, u, besides⟩
    exact besides.currents.1.trans besides.currents.2.symm
  previous := by
    rintro s c d e ⟨u, besides, previous, _⟩
    exact previous
  same := by
    rintro d e t _ rfl
    exact ⟨rfl, rfl⟩
  keep known _ _ := known
  spare := by
    rintro s c d e ⟨u, besides, rest⟩
    exact ⟨u, besides.spend (Nat.le_succ c), rest⟩
  read := by
    rintro c d e ⟨t, u, besides⟩ plain running
    rw [besides.currents.1] at plain running ⊢
    exact beside_read besides running fun kind => absurd kind plain
  refuse begins _ := beside_refuse begins
  stop := by
    rintro c d e ⟨u, besides, _, last⟩ kind
    cases u with
    | nil => cases (last rfl).1
    | cons t u =>
      rw [besides.currents.1] at kind
      have read := beside_read (j := j) (s := .ended) besides (by simp [kind]) fun _ => rfl
      rw [kind] at read
      exact read
  fail := by
    rintro s c d e t _ fault ⟨u, besides, previous, last⟩ rfl
    exact beside_lost besides previous fun none => (last none).2
  emit h := beside_write h (.write _ _ _) (.write _ _ _)
  emitAt := by
    rintro s c d e op t _ h rfl
    exact beside_write h (.emitAt _ _ _) (.emitAt _ _ _)
  slot := rfl
  emitGet := by
    rintro s c d e x y t _ h stored rfl
    cases x <;> cases y
    · exact beside_write h (.emitByteAt _ _ _ _) (.emitByteAt _ _ _ _)
    · exact stored.elim
    · exact stored.elim
    · exact beside_write h (.emitWideAt _ _ _ _) (.emitWideAt _ _ _ _)
  emitSet := by
    rintro s c d e x y t _ h stored rfl
    cases x <;> cases y
    · exact beside_write h (.emitByteAt _ _ _ _) (.emitByteAt _ _ _ _)
    · exact stored.elim
    · exact stored.elim
    · exact beside_write h (.emitWideAt _ _ _ _) (.emitWideAt _ _ _ _)
  define h _ := beside_write h (.emitWide _ _ _) (.emitWide _ _ _)
  jump := by
    rintro s c d e op h
    refine ⟨?_, beside_write h (.emitWide _ _ _) (.emitWide _ _ _)⟩
    obtain ⟨u, besides, _⟩ := h
    have size := besides.size
    have added := (Draft.Adds.emitWide d op 0xffff).size
    have added' := (Draft.Adds.emitWide e op 0xffff).size
    change (d.emitWide op 0xffff).chunk.code.size - 2 = (e.emitWide op 0xffff).chunk.code.size - 2 + k
    omega
  patch := by
    rintro s c i j d e h rfl
    refine ⟨?_, fun n => beside_write h (.patchWide _ _ _) (.patchWide _ _ _)⟩
    obtain ⟨u, besides, _⟩ := h
    have size := besides.size
    omega
  start := by
    rintro c d e ⟨t, u, besides⟩
    exact besides.size
  loop := by
    rintro s c i j d e h rfl
    have emitted (d : Draft) : d.Adds 1 0 (d.emit .loop) := .write _ _ _
    refine ⟨?_, fun n => ?_⟩
    · obtain ⟨u, besides, _⟩ := h
      have size := besides.size
      have added := (emitted d).size
      have added' := (emitted e).size
      omega
    · exact beside_write h ((emitted d).trans (.writeWide _ _ _)) ((emitted e).trans (.writeWide _ _ _))
  constant := by
    rintro s c d e v h
    obtain ⟨u, besides, _⟩ := id h
    obtain ⟨room, room'⟩ := besides.hasRoom
    exact ⟨room.trans room'.symm, fun _ => beside_runs h (.writeConstant _ _ _) (.writeConstant _ _ _)⟩
  name := by
    rintro s c d e t _ h rfl
    obtain ⟨u, besides, _⟩ := id h
    obtain ⟨room, room'⟩ := besides.hasRoom
    obtain ⟨i, d', run, left⟩ := run_nameConstant_of_room room (t := t)
    obtain ⟨i', e', run', right⟩ := run_nameConstant_of_room room' (t := t)
    obtain ⟨few, few'⟩ := besides.left
    rw [run, run']
    exact ⟨.of_still few left.still, .of_still few' right.still, trivial, beside_runs h left right⟩
  declare := by
    rintro c d e name scope ⟨u, besides, previous, last⟩ inner _ _
    refine ⟨u, ?_, previous, last⟩
    refine ⟨besides.shared, besides.tokens, besides.tokens', rfl, fun part => absurd ?_ inner,
      besides.mode, besides.mode', besides.faults, besides.size, besides.room, besides.room'⟩
    rw [besides.flat part]
  ready := by
    rintro c d e ⟨u, besides, previous, last⟩
    exact ⟨u, besides.rescope Scope.markReady fun _ => rfl, previous, last⟩
  ready_lost := by
    rintro d e ⟨u, besides, previous, last⟩
    exact ⟨u, besides.rescope Scope.markReady fun _ => rfl, previous, last⟩
  branch := beside_branch

theorem Shared.skip {u : List Token} (h : Shared X Y u) {p t t' : Token} {ts ts' : List Token}
    (last : u = [] → p.kind = .semicolon) (left : t :: ts = u ++ X) (right : t' :: ts' = u ++ Y)
    (inBlock : Bool) :
    ∃ v, Shared X Y v ∧ asks v ≤ asks u ∧
      (Draft.skip inBlock p t ts).1 = (Draft.skip inBlock p t' ts').1 ∧
      (Draft.skip inBlock p t ts).2.1 :: (Draft.skip inBlock p t ts).2.2 = v ++ X ∧
      (Draft.skip inBlock p t' ts').2.1 :: (Draft.skip inBlock p t' ts').2.2 = v ++ Y := by
  induction u generalizing p t t' ts ts' with
  | nil =>
    have stops (t : Token) : Draft.resumesAt inBlock p t = true := by
      simp [Draft.resumesAt, last rfl]
    rw [Draft.skip_of_resumes (stops t), Draft.skip_of_resumes (stops t')]
    exact ⟨[], h, Nat.le_refl _, rfl, left, right⟩
  | cons x u ih =>
    obtain ⟨rfl, more⟩ : t = x ∧ ts = u ++ X := List.cons.inj left
    obtain ⟨rfl, more'⟩ : t' = t ∧ ts' = u ++ Y := List.cons.inj right
    cases resumes : Draft.resumesAt inBlock p t' with
    | true =>
      rw [Draft.skip_of_resumes resumes, Draft.skip_of_resumes resumes]
      exact ⟨_, h, Nat.le_refl _, rfl, left, right⟩
    | false =>
      have running : t'.kind ≠ .eof := by
        intro ends
        simp [Draft.resumesAt, ends] at resumes
      obtain ⟨shared, last⟩ := h.tail running
      obtain ⟨y, ys, rfl⟩ := List.exists_cons_of_ne_nil (more ▸ shared.ne_nil.1)
      obtain ⟨z, zs, rfl⟩ := List.exists_cons_of_ne_nil (more' ▸ shared.ne_nil.2)
      have further {y : Token} {ys : List Token} :
          Draft.skip inBlock p t' (y :: ys) = Draft.skip inBlock t' y ys := if_neg (by simp [resumes])
      rw [further, further]
      obtain ⟨v, shared', fewer, rest⟩ := ih shared last more more'
      refine ⟨v, shared', ?_, rest⟩
      rw [asks_cons]
      omega

theorem beside_laws : (beside X Y k F).Laws where
  pairing := beside_pairing
  offset _ _ := rfl
  finish := by
    rintro j j' d d' e e' _ ⟨u, besides, previous, _⟩
    exact ⟨u, besides.adds (n := 0) (a := 0) (.recordSpan _ _ _) (.recordSpan _ _ _),
      fun _ => previous⟩
  recover := by
    rintro j j' d d' e e' _ ⟨u, besides, previous, last⟩
    obtain ⟨v, shared, fewer, resumed, tokens, tokens'⟩ :=
      besides.shared.skip last besides.tokens besides.tokens' (0 < d'.scope.depth)
    have left : d'.synchronize.tokens = v ++ X := tokens
    have right : e'.synchronize.tokens = v ++ Y := by
      rw [previous, besides.scope] at tokens'
      exact tokens'
    have same : d'.synchronize.previous = e'.synchronize.previous := by
      refine Eq.trans resumed ?_
      rw [previous, besides.scope]
      rfl
    have room := besides.room
    have room' := besides.room'
    rw [besides.tokens, asks_append] at room
    rw [besides.tokens', asks_append] at room'
    have constants : d'.synchronize.chunk.constants.size = d'.chunk.constants.size := rfl
    have constants' : e'.synchronize.chunk.constants.size = e'.chunk.constants.size := rfl
    refine ⟨v, ⟨shared, left, right, besides.scope, besides.flat, rfl, rfl, besides.faults,
      besides.size, ?_, ?_⟩, fun _ => same⟩
    · rw [left, asks_append, constants]
      omega
    · rw [right, asks_append, constants']
      omega

end

section

variable {k : Nat} {F : List Diagnostic}

theorem Shared.exists_cons {u : List Token} (h : Shared [] [] u) : ∃ t v, u = t :: v := by
  refine List.exists_cons_of_ne_nil ?_
  have some := h.ne_nil.1
  rwa [List.append_nil] at some

theorem beside_leave {c : Nat} {r : Bool} {u : List Token} {d e : Draft}
    (h : Beside [] [] k F r c u d e) : Beside [] [] k F r c u d.leaveBlock e.leaveBlock := by
  have scope := h.rescope Scope.leave fun part => absurd rfl part
  have right := Draft.Adds.emitPops e.scope.owned { e with scope := e.scope.leave }
  rw [Draft.leaveBlock, Draft.leaveBlock, h.scope]
  rw [h.scope] at scope
  exact scope.adds (a := 0) (.emitPops _ _) right

theorem beside_nested : (beside [] [] k F).Nested where
  kind := by
    rintro j d e ⟨u, besides, _⟩
    obtain ⟨t, v, rfl⟩ := besides.shared.exists_cons
    rw [besides.currents.1, besides.currents.2]
  again := by
    rintro j d e ⟨u, besides, _⟩ _
    obtain ⟨t, v, rfl⟩ := besides.shared.exists_cons
    exact ⟨t, v, besides⟩
  enter := by
    rintro j d e ⟨t, u, besides⟩ kind
    rw [besides.currents.1] at kind
    have read := besides.advance (by simp [kind])
    have previous : d.advance.previous = e.advance.previous := by
      rw [d.advance_previous, e.advance_previous, besides.currents.1, besides.currents.2]
    exact ⟨u, (read.spend (Nat.zero_le _)).rescope Scope.enter fun part => absurd rfl part,
      fun _ => previous⟩
  close := by
    rintro j d e ⟨u, besides, _⟩ _ kind
    obtain ⟨t, v, rfl⟩ := besides.shared.exists_cons
    rw [besides.currents.1] at kind
    obtain ⟨w, read, previous, last⟩ :=
      beside_read (j := j) (s := .ended) besides (by simp [kind]) fun _ => rfl
    rw [kind] at read
    refine ⟨w, beside_leave read, ?_, ?_⟩
    · rw [d.advance.leaveBlock_sameReading.previous, e.advance.leaveBlock_sameReading.previous]
      exact previous
    · rw [d.advance.leaveBlock_sameReading.previous]
      exact last
  unclosed := by
    rintro j d e fault ⟨u, besides, same⟩ inner _
    obtain ⟨t, v, rfl⟩ := besides.shared.exists_cons
    rw [d.report_leaveBlock, e.report_leaveBlock, besides.currents.1, besides.currents.2]
    refine beside_lost (beside_leave besides) ?_ (by simp)
    rw [d.leaveBlock_sameReading.previous, e.leaveBlock_sameReading.previous]
    exact same inner

end

theorem beside_blocks {X Y : List Token} {k : Nat} {F : List Diagnostic} (some : X ≠ []) {n m : Nat}
    {expr : Build Unit} {expr' : Watched Unit} : (beside X Y k F).Blocks n m expr expr' := by
  rintro _ _ _ _ _ _ _ d w _ _ ⟨t, u, besides⟩ kind
  rw [besides.currents.1] at kind
  cases besides.shared with
  | whole none => exact absurd none some
  | part _ _ _ plain => exact absurd kind (plain t List.mem_cons_self).1

theorem part_ends {X : List Token} {closing : Token} (some : X ≠ []) (ends : closing.kind = .eof)
    {k : Nat} {F : List Diagnostic} {n m fuel fuel' : Nat} {decl : Build Unit} {decl' : Watched Unit}
    (declaration : (beside X [closing] k F).Declarations n m decl decl') (enough : n ≤ fuel)
    (enough' : m ≤ fuel') {d : Draft} {w : Watch} (left : d.Left n) (right : w.draft.Left m)
    (before : (beside X [closing] k F).between w.journal d w.draft) :
    ∃ d₁ e₁ j rest, Beside X [closing] k F false 0 [] d₁ e₁ ∧ d₁.Left rest ∧ rest ≤ fuel ∧
      (declarations decl fuel).run d = (declarations decl rest).run d₁ ∧
      (declarations decl' fuel').run w = .ok () ⟨e₁.advance, j⟩ := by
  induction fuel generalizing n m fuel' d w with
  | zero => exact (left.mono enough).not_zero.elim
  | succ fuel ih =>
    obtain ⟨fuel', rfl⟩ := (right.mono enough').succ
    obtain ⟨u, besides, _⟩ := before
    cases u with
    | nil =>
      have current : w.draft.current = closing := Draft.current_of_tokens besides.tokens'
      refine ⟨d, w.draft, w.journal, fuel + 1, besides, left.mono enough, Nat.le_refl _, rfl, ?_⟩
      have ends' : (Carrier.draft w).current.kind = .eof := current ▸ ends
      rw [declarations, run_take_bind, if_pos ends']
      rfl
    | cons t u =>
      obtain ⟨current, current'⟩ := besides.currents
      have running : t.kind ≠ .eof := by
        cases besides.shared with
        | whole none => exact absurd none some
        | part _ _ _ plain => exact (plain t List.mem_cons_self).2
      obtain ⟨n, rfl⟩ := left.succ
      obtain ⟨m, rfl⟩ := right.succ
      have few := left.read (current ▸ running)
      have few' := right.read (current' ▸ running)
      obtain ⟨d', w', run, run', onto, onto', after⟩ :=
        declaration.exists_ok left right ⟨t, u, besides⟩
      obtain ⟨d₁, e₁, j, rest, reached, short, le, same, last⟩ :=
        ih (declaration.mono (Nat.le_succ n) (Nat.le_succ m)) (Nat.le_of_succ_le_succ enough)
          (Nat.le_of_succ_le_succ enough') (onto.left.mono few.count) (onto'.left.mono few'.count) after
      refine ⟨d₁, e₁, j, rest, reached, short, Nat.le_succ_of_le le, ?_, ?_⟩
      · rw [run_declarations_more (current ▸ running) run]
        exact same
      · rw [run_declarations_more (s := w) (current' ▸ running) run', last]

theorem withEnd_append (file : Text) {ts : List Token} (running : Running ts) (us : List Token) :
    withEnd file (ts ++ us) = ts ++ withEnd file us := by
  cases us with
  | nil =>
    rw [List.append_nil]
    cases last : ts.getLast? with
    | none =>
      rw [List.getLast?_eq_none_iff.1 last]
      rfl
    | some t =>
      have plain := running t (List.mem_of_getLast? last)
      simp [withEnd, last, plain]
  | cons u us =>
    have last : (ts ++ u :: us).getLast? = (u :: us).getLast? := by
      rw [List.getLast?_append, List.getLast?_cons]
      rfl
    unfold withEnd
    rw [last]
    split
    · split
      · rfl
      · exact List.append_assoc _ _ _
    · next none => cases List.getLast?_eq_none_iff.1 none

theorem withEnd_head (file : Text) {ts : List Token} {t : Token}
    (next : t ∈ (withEnd file ts).head?) : t ∈ ts.head? ∨ t.kind = .eof := by
  cases ts with
  | nil =>
    cases next
    exact .inr rfl
  | cons u ts =>
    refine .inl ?_
    unfold withEnd at next
    split at next
    · split at next <;> exact next
    · next none => cases List.getLast?_eq_none_iff.1 none

theorem asks_withEnd (file : Text) (ts : List Token) : asks (withEnd file ts) = asks ts := by
  unfold withEnd
  split
  · split
    · rfl
    · rw [asks_append]
      rfl
  · next none =>
    rw [List.getLast?_eq_none_iff.1 none]
    rfl

theorem start_room (file : Text) {ts : List Token} (few : asks ts ≤ Chunk.maxConstants) :
    (Draft.start file ts).chunk.constants.size + asks (Draft.start file ts).tokens + 0 ≤
      Chunk.maxConstants := by
  rw [(start_empty file ts).2, Draft.start_tokens, asks_withEnd]
  exact Nat.le_trans (Nat.le_of_eq (Nat.zero_add _)) few

section

variable (file : Text) {ts us : List Token} (few : asks (ts ++ us) ≤ Chunk.maxConstants)

include few

theorem beside_start (plain : ∀ t ∈ ts, t.kind ≠ .leftBrace ∧ t.kind ≠ .eof)
    (last : ∀ t ∈ ts.getLast?, t.kind = .semicolon)
    (fresh : ∀ t ∈ us.head?, t.kind ≠ .kwElif ∧ t.kind ≠ .kwElse) :
    Beside (withEnd file us) (withEnd file []) 0 [] false 0 ts (Draft.start file (ts ++ us))
      (Draft.start file ts) := by
  have running : Running ts := fun t mem => (plain t mem).2
  obtain ⟨clean, quiet⟩ := Draft.start_clean file (ts ++ us)
  obtain ⟨clean', quiet'⟩ := Draft.start_clean file ts
  obtain ⟨scope, chunk⟩ := start_empty file (ts ++ us)
  obtain ⟨scope', chunk'⟩ := start_empty file ts
  have ends {t : Token} (kind : t.kind = .eof) : t.kind ≠ .kwElif ∧ t.kind ≠ .kwElse := by
    simp [kind]
  refine ⟨.part (withEnd_closed file us) (withEnd_closed file []) ?_ plain last, ?_, ?_,
    scope.trans scope'.symm, fun _ => scope, quiet, quiet', ?_, ?_, start_room file few,
    start_room file ?_⟩
  · intro t mem
    rw [List.mem_append, Option.mem_toList, Option.mem_toList] at mem
    rcases mem with next | next
    · exact (withEnd_head file next).elim (fresh t) ends
    · cases next
      exact ends rfl
  · rw [Draft.start_tokens, withEnd_append file running]
  · rw [Draft.start_tokens, ← withEnd_append file running, List.append_nil]
  · rw [clean, clean']
    rfl
  · rw [chunk, chunk']
    rfl
  · rw [asks_append] at few
    exact Nat.le_trans (Nat.le_add_right _ _) few

theorem beside_behind {d e : Draft}
    (h : Beside (withEnd file us) (withEnd file []) 0 [] false 0 [] d e) :
    Beside [] [] d.chunk.code.size d.faults false 0 (withEnd file us) d (Draft.start file us) := by
  obtain ⟨clean, quiet⟩ := Draft.start_clean file us
  obtain ⟨scope, chunk⟩ := start_empty file us
  have some : withEnd file us ≠ [] := h.shared.ne_nil.1
  refine ⟨.whole rfl rfl (withEnd_closed file us), ?_, ?_, ?_, fun part => absurd rfl part, h.mode,
    quiet, ?_, ?_, h.room, start_room file ?_⟩
  · rw [h.tokens, List.append_nil, List.nil_append]
  · rw [Draft.start_tokens, List.append_nil]
  · rw [h.flat some, scope]
  · rw [clean]
    rfl
  · rw [chunk]
    exact (Nat.zero_add _).symm
  · rw [asks_append] at few
    exact Nat.le_trans (Nat.le_add_left _ _) few

end

/-- Recovery is local: what is objected to in a part that ends in a semicolon and what is objected
to behind it do not depend on each other. -/
theorem diagnostics_append (file : Text) (ts us : List Token)
    (plain : ∀ t ∈ ts, t.kind ≠ .leftBrace ∧ t.kind ≠ .eof)
    (last : ∀ t ∈ ts.getLast?, t.kind = .semicolon)
    (fresh : ∀ t ∈ us.head?, t.kind ≠ .kwElif ∧ t.kind ≠ .kwElse)
    (few : asks (ts ++ us) ≤ Chunk.maxConstants) :
    diagnostics file (ts ++ us) = diagnostics file ts ++ diagnostics file us ∧
      ((∃ p, compileTokens file (ts ++ us) = .ok p) ↔
        (∃ p, compileTokens file ts = .ok p) ∧ ∃ p, compileTokens file us = .ok p) := by
  suffices h : diagnostics file (ts ++ us) = diagnostics file ts ++ diagnostics file us by
    refine ⟨h, ?_⟩
    rw [compileTokens_iff, compileTokens_iff, compileTokens_iff, h, List.append_eq_nil_iff]
  have start := beside_start file few plain last fresh
  have outer : ¬ 0 < (Draft.start file (ts ++ us)).scope.depth := by
    rw [(start_empty file _).1]
    exact Nat.lt_irrefl 0
  have some : withEnd file us ≠ [] := by
    have closed := withEnd_closed file us
    rintro none
    exact closed (by simp [none, Running])
  -- The part is read. Alone it is objected to as far as behind it nothing else is.
  have laws := beside_laws (X := withEnd file us) (Y := withEnd file []) (k := 0) (F := [])
  have declaration := Survey.text_declarations laws (n := fuelFor file (ts ++ us))
    (m := fuelFor file ts) (beside_blocks some)
  obtain ⟨d, e, j, rest, reached, left, le, same, watched⟩ :=
    part_ends some rfl declaration (Nat.le_refl _) (Nat.le_refl _) (start_left file (ts ++ us))
      (w := ⟨Draft.start file ts, []⟩) (start_left file ts) ⟨ts, start, fun inner => absurd inner outer⟩
  have part : diagnostics file ts = e.faults.reverse := by
    rw [diagnostics_of_watched watched, e.advance_faults.1]
  -- What comes behind is read as if it stood alone.
  have behind := beside_behind file few reached
  have outer' : ¬ 0 < d.scope.depth := by
    rw [reached.flat some]
    exact Nat.lt_irrefl 0
  have laws' := beside_laws (X := []) (Y := []) (k := d.chunk.code.size) (F := d.faults)
  obtain ⟨_, _, f, w, run, watched', d', e', _, ⟨u, ended, _⟩, rfl, draft⟩ :=
    (Survey.declarations_ends beside_nested (.mono (beside_nested.declarations laws'
      (fuelFor file (ts ++ us)) (fuelFor file us)) le (Nat.le_refl _)) (Nat.le_refl _)
      (Nat.le_refl _) (s := d) left (w := ⟨Draft.start file us, []⟩) (start_left file us)
      ⟨_, behind, fun inner => absurd inner outer'⟩).exists_ok
  have whole : (text (fuelFor file (ts ++ us))).run (Draft.start file (ts ++ us)) =
      .ok () d'.advance := same.trans run
  rw [diagnostics_of_run whole, diagnostics_of_watched watched', part, draft, d'.advance_faults.1,
    e'.advance_faults.1, ended.faults, reached.faults, List.append_nil, List.reverse_append]

theorem diagnostics_append_unnamed :
    let part : List Token := [⟨.kwPrint, utf8 "print", {}⟩, ⟨.semicolon, utf8 ";", {}⟩]
    let behind : List Token := [⟨.kwLet, utf8 "let", {}⟩, ⟨.semicolon, utf8 ";", {}⟩]
    asks (part ++ behind) ≤ Chunk.maxConstants ∧
      diagnostics [] (part ++ behind) = diagnostics [] part ++ diagnostics [] behind ∧
      diagnostics [] part = [.atSpan {} SyntaxFault.expectedExpression.message] ∧
      diagnostics [] behind = [.atSpan {} SyntaxFault.expectedName.message] := by
  intro part behind
  have few : asks (part ++ behind) ≤ Chunk.maxConstants := by decide
  have appended := diagnostics_append [] part behind (by simp [part]) (by simp [part])
    (by simp [behind]) few
  exact ⟨few, appended.1, rfl, rfl⟩

end StackScript
