import StackScript.Proofs.FaultOrder
import StackScript.Proofs.Machine.Hosts

/-! Layout is no matter of code. Two token lists of the same kinds and lexemes, wherever the tokens
stand and whatever file they are from, are compiled to the same code and constants with spans for the
same ranges of it, or are objected to in the same words. -/

namespace StackScript

open Build Grammar

def Token.word (t : Token) : TokenKind × Text := (t.kind, t.lexeme)

def SpanEntry.range (e : SpanEntry) : Int × Int := (e.start, e.stop)

theorem Token.kind_of_word {t u : Token} (h : t.word = u.word) : t.kind = u.kind :=
  congrArg Prod.fst h

theorem running_of_words {ts us : List Token} (h : ts.map Token.word = us.map Token.word) :
    Running ts ↔ Running us := by
  have kinds (ts : List Token) : Running ts ↔ ∀ w ∈ ts.map Token.word, w.1 ≠ .eof := by
    simp [Running, Token.word]
  rw [kinds, kinds, h]

structure Draft.Alike (d e : Draft) : Prop where
  ended : d.Ended
  tokens : d.tokens.map Token.word = e.tokens.map Token.word
  previous : d.previous.word = e.previous.word
  scope : d.scope = e.scope
  names : d.names = e.names
  mode : d.recovering = e.recovering
  code : d.chunk.code = e.chunk.code
  constants : d.chunk.constants = e.chunk.constants
  ranges : d.spans.map SpanEntry.range = e.spans.map SpanEntry.range
  messages : d.faults.map (·.message) = e.faults.map (·.message)

namespace Draft.Alike

variable {d e : Draft}

theorem current (h : d.Alike e) : d.current.word = e.current.word := (List.cons.inj h.tokens).1

theorem upcoming (h : d.Alike e) : d.upcoming.map Token.word = e.upcoming.map Token.word :=
  (List.cons.inj h.tokens).2

theorem kind (h : d.Alike e) : d.current.kind = e.current.kind := Token.kind_of_word h.current

theorem size (h : d.Alike e) : d.chunk.code.size = e.chunk.code.size := congrArg Array.size h.code

theorem hasRoom (h : d.Alike e) : d.chunk.hasRoom = e.chunk.hasRoom := by
  rw [Chunk.hasRoom, Chunk.hasRoom, h.constants]

theorem left (h : d.Alike e) : d.Left d.tokens.length ∧ e.Left e.tokens.length :=
  ⟨⟨h.ended, Nat.le_refl _⟩, ⟨mt (running_of_words h.tokens).2 h.ended, Nat.le_refl _⟩⟩

theorem advance (h : d.Alike e) : d.advance.Alike e.advance := by
  by_cases ends : d.current.kind = .eof
  · rw [advance_of_eof ends, advance_of_eof (h.kind ▸ ends)]
    exact { h with previous := h.current }
  · obtain ⟨split, ended⟩ := h.ended.advance ends
    obtain ⟨split', _⟩ := h.left.2.ended.advance (h.kind ▸ ends)
    obtain ⟨faults, recovering⟩ := d.advance_faults
    obtain ⟨faults', recovering'⟩ := e.advance_faults
    have tokens := h.tokens
    rw [split, split', List.map_cons, List.map_cons] at tokens
    refine ⟨ended, (List.cons.inj tokens).2, ?_, ?_, ?_, ?_, ?_, ?_, ?_, ?_⟩
    · rw [d.advance_previous, e.advance_previous, h.current]
    · rw [d.advance_scope, e.advance_scope, h.scope]
    · rw [d.advance_names, e.advance_names, h.names]
    · rw [recovering, recovering', h.mode]
    · rw [d.advance_chunk, e.advance_chunk, h.code]
    · rw [d.advance_chunk, e.advance_chunk, h.constants]
    · rw [d.advance_spans, e.advance_spans, h.ranges]
    · rw [faults, faults', h.messages]

theorem report (h : d.Alike e) (t u : Token) (fault : SyntaxFault) :
    (d.report t fault).Alike (e.report u fault) := by
  unfold Draft.report
  rw [← h.mode]
  split
  · exact h
  · exact { h with mode := rfl, messages := congrArg (fault.message :: ·) h.messages }

theorem write (h : d.Alike e) (b : UInt8) (line line' : Int) :
    (d.write b line).Alike (e.write b line') :=
  { h with code := congrArg (·.push b) h.code }

theorem writeWide (h : d.Alike e) (n : Nat) (line line' : Int) :
    (d.writeWide n line).Alike (e.writeWide n line') := (h.write _ line line').write _ line line'

theorem recordSpan (h : d.Alike e) (start : Nat) (s s' : Span) :
    (d.recordSpan start s).Alike (e.recordSpan start s') := by
  refine { h with ranges := ?_ }
  simp only [Draft.recordSpan, SpanTable.add, ← h.size]
  split
  · exact h.ranges
  · rw [Array.map_push, Array.map_push, h.ranges]
    rfl

theorem emitAt (h : d.Alike e) (op : Opcode) (t u : Token) :
    (d.emitAt op t).Alike (e.emitAt op u) := by
  have written := h.write op.toByte t.span.line u.span.line
  rw [Draft.emitAt, Draft.emitAt, h.size]
  exact written.recordSpan _ _ _

theorem emitByteAt (h : d.Alike e) (op : Opcode) (n : Nat) (t u : Token) :
    (d.emitByteAt op n t).Alike (e.emitByteAt op n u) := by
  have written := (h.write op.toByte t.span.line u.span.line).write (UInt8.ofNat n) t.span.line
    u.span.line
  rw [Draft.emitByteAt, Draft.emitByteAt, h.size]
  exact written.recordSpan _ _ _

theorem emitWideAt (h : d.Alike e) (op : Opcode) (n : Nat) (t u : Token) :
    (d.emitWideAt op n t).Alike (e.emitWideAt op n u) := by
  have written := (h.write op.toByte t.span.line u.span.line).writeWide n t.span.line u.span.line
  rw [Draft.emitWideAt, Draft.emitWideAt, h.size]
  exact written.recordSpan _ _ _

theorem emitWide (h : d.Alike e) (op : Opcode) (n : Nat) : (d.emitWide op n).Alike (e.emitWide op n) :=
  (h.write _ _ _).writeWide _ _ _

theorem patchWide (h : d.Alike e) (i n : Nat) :
    Draft.Alike { d with chunk := d.chunk.patchWide i n } { e with chunk := e.chunk.patchWide i n } := by
  refine { h with code := ?_ }
  simp only [Chunk.patchWide, h.code]

theorem addConstant (h : d.Alike e) (v : Value) (names : Std.TreeMap Text Nat compare) :
    Draft.Alike { d with chunk := d.chunk.addConstant v, names }
      { e with chunk := e.chunk.addConstant v, names } :=
  { h with constants := congrArg (·.push v) h.constants, names := rfl }

theorem writeConstant (h : d.Alike e) (v : Value) (line line' : Int) :
    Draft.Alike { d with chunk := d.chunk.writeConstant v line }
      { e with chunk := e.chunk.writeConstant v line' } := by
  have added : Draft.Alike { d with chunk := d.chunk.addConstant v }
      { e with chunk := e.chunk.addConstant v } :=
    { h with constants := congrArg (·.push v) h.constants }
  have written := (added.write Opcode.constant.toByte line line').writeWide e.chunk.constants.size line
    line'
  simp only [Chunk.writeConstant, h.constants]
  exact written

theorem rescope (h : d.Alike e) (f : Scope → Scope) :
    Draft.Alike { d with scope := f d.scope } { e with scope := f e.scope } :=
  { h with scope := congrArg f h.scope }

theorem leaveBlock (h : d.Alike e) : d.leaveBlock.Alike e.leaveBlock := by
  have pops (n : Nat) {d e : Draft} (h : d.Alike e) : (emitPops n d).Alike (emitPops n e) := by
    induction n generalizing d e with
    | zero => exact h
    | succ n ih => exact ih (h.write _ _ _)
  rw [Draft.leaveBlock, Draft.leaveBlock, h.scope]
  exact pops _ { h with scope := rfl }

theorem skip_word (inBlock : Bool) {p p' t t' : Token} {ts ts' : List Token} (before : p.word = p'.word)
    (current : t.word = t'.word) (upcoming : ts.map Token.word = ts'.map Token.word) :
    let r := Draft.skip inBlock p t ts
    let r' := Draft.skip inBlock p' t' ts'
    r.1.word = r'.1.word ∧ r.2.1.word = r'.2.1.word ∧
      r.2.2.map Token.word = r'.2.2.map Token.word := by
  induction ts generalizing p p' t t' ts' with
  | nil =>
    rw [List.map_eq_nil_iff.1 upcoming.symm]
    exact ⟨before, current, rfl⟩
  | cons u ts ih =>
    obtain ⟨u', ts', rfl⟩ : ∃ u' us, ts' = u' :: us := by
      cases ts' with
      | nil => cases upcoming
      | cons u' us => exact ⟨u', us, rfl⟩
    have resumes : Draft.resumesAt inBlock p t = Draft.resumesAt inBlock p' t' := by
      rw [Draft.resumesAt, Draft.resumesAt, Token.kind_of_word before, Token.kind_of_word current]
    obtain ⟨next, rest⟩ := List.cons.inj upcoming
    unfold Draft.skip
    rw [← resumes]
    split
    · exact ⟨before, current, upcoming⟩
    · exact ih current next rest

theorem synchronize (h : d.Alike e) : d.synchronize.Alike e.synchronize := by
  have ended := (Onto.refl h.left.1).synchronize.left.ended
  obtain ⟨previous, current, upcoming⟩ :=
    skip_word (0 < d.scope.depth) h.previous h.current h.upcoming
  have skipped : e.synchronize = { e with
      previous := (skip (0 < d.scope.depth) e.previous e.current e.upcoming).1
      current := (skip (0 < d.scope.depth) e.previous e.current e.upcoming).2.1
      upcoming := (skip (0 < d.scope.depth) e.previous e.current e.upcoming).2.2
      recovering := false } := by
    rw [h.scope]
    rfl
  rw [skipped]
  exact { h with
    ended := ended
    tokens := List.cons_eq_cons.2 ⟨current, upcoming⟩
    previous := previous
    mode := rfl }

end Draft.Alike

theorem nameConstant_alike {d e : Draft} {t u : Token} (h : d.Alike e) (same : t.word = u.word) :
    Ends (fun i j d' e' => i = j ∧ d.Still d' ∧ e.Still e' ∧ d'.Alike e')
      (fun d' e' => d' = d.report t .fullPool ∧ e' = e.report u .fullPool)
      ((nameConstant t).run d) ((nameConstant u).run e) := by
  have lexeme : t.lexeme = u.lexeme := congrArg Prod.snd same
  rw [run_nameConstant, run_nameConstant, ← h.names, ← lexeme, ← h.hasRoom]
  cases d.names[t.lexeme]? with
  | some i => exact ⟨rfl, ⟨rfl, rfl, rfl⟩, ⟨rfl, rfl, rfl⟩, h⟩
  | none =>
    dsimp only
    split
    · refine ⟨congrArg Array.size h.constants, ⟨rfl, rfl, rfl⟩, ⟨rfl, rfl, rfl⟩, ?_⟩
      rw [h.constants]
      exact h.addConstant _ _
    · exact ⟨rfl, rfl⟩

def layout : Survey where
  pairing _ :=
    { begins := fun _ d e => d.Alike e
      runs := fun _ _ d e => d.Alike e
      lost := fun d e => d.Alike e
      known := fun _ _ t u => t.word = u.word
      offset := fun i j => i = j
      stored := fun x y => x = y }
  between _ d e := d.Alike e

theorem layout_pairing (j : List Activation) : (layout.pairing j).Laws where
  of_inside h := h
  scope h := h.scope
  current h := h.current
  previous h := h.previous
  same known := ⟨congrArg Prod.fst known, congrArg Prod.snd known⟩
  keep known _ _ := known
  spare h := h
  read h _ _ := h.advance
  refuse h _ := h.advance.report _ _ _
  stop h _ := h.advance
  fail h _ := h.report _ _ _
  emit h := h.write _ _ _
  emitAt h _ := h.emitAt _ _ _
  slot := rfl
  emitGet {s c d e x y t u} h stored _ := by
    obtain rfl : x = y := stored
    cases x with
    | slot n => exact h.emitByteAt _ _ _ _
    | global n => exact h.emitWideAt _ _ _ _
  emitSet {s c d e x y t u} h stored _ := by
    obtain rfl : x = y := stored
    cases x with
    | slot n => exact h.emitByteAt _ _ _ _
    | global n => exact h.emitWideAt _ _ _ _
  define {s c i j d e} h stored := by
    obtain rfl : i = j := Place.global.inj stored
    exact h.emitWide _ _
  jump h := ⟨congrArg (· - 2) (h.emitWide _ _).size, h.emitWide _ _⟩
  patch {s c i j d e} h offset := by
    obtain rfl : i = j := offset
    exact ⟨by rw [h.size], fun n => h.patchWide i n⟩
  start h := h.size
  loop {s c i j d e} h offset := by
    obtain rfl : i = j := offset
    have emitted : (d.emit .loop).Alike (e.emit .loop) := h.write _ _ _
    exact ⟨by rw [emitted.size], fun n => emitted.writeWide n _ _⟩
  constant h := ⟨h.hasRoom, fun _ => h.writeConstant _ _ _⟩
  name {s c d e t u} h known := by
    obtain ⟨left, right⟩ := h.left
    refine Ends.imp (nameConstant_alike h known) ?_ ?_
    · rintro i _ d' e' ⟨rfl, still, still', alike⟩
      exact ⟨.of_still left still, .of_still right still', rfl, alike⟩
    · rintro d' e' ⟨rfl, rfl⟩
      exact ⟨.report left _ _, .report right _ _, h.report _ _ _⟩
  declare h _ _ _ := { h with scope := rfl }
  ready h := h.rescope Scope.markReady
  ready_lost h := h.rescope Scope.markReady
  branch {c d e k} h _ := by
    have same : d.current.kind = e.current.kind := h.kind
    exact ⟨by rw [same], fun _ => h.advance⟩

theorem layout_laws : layout.Laws where
  pairing := layout_pairing
  offset _ _ := rfl
  finish {j j' d d' e e'} before ended := by
    have size : d.chunk.code.size = e.chunk.code.size := before.size
    rw [size]
    exact ended.recordSpan _ _ _
  recover _ lost := lost.synchronize

theorem layout_nested : layout.Nested where
  kind h := h.kind
  again h _ := h
  enter h _ := h.advance.rescope Scope.enter
  close h _ _ := h.advance.leaveBlock
  unclosed h _ _ := (h.report _ _ _).leaveBlock

theorem withEnd_word {file file' : Text} {ts us : List Token}
    (same : ts.map Token.word = us.map Token.word) :
    (withEnd file ts).map Token.word = (withEnd file' us).map Token.word := by
  have last : ts.getLast?.map Token.word = us.getLast?.map Token.word := by
    rw [← List.getLast?_map, ← List.getLast?_map, same]
  unfold withEnd
  cases left : ts.getLast? with
  | none =>
    rw [left] at last
    rw [Option.map_eq_none_iff.1 last.symm]
    rfl
  | some t =>
    rw [left] at last
    obtain ⟨u, right, word⟩ := Option.map_eq_some_iff.1 last.symm
    rw [right]
    dsimp only
    rw [← Token.kind_of_word word.symm]
    split
    · exact same
    · rw [List.map_append, List.map_append, same]
      rfl

theorem Draft.start_alike (file file' : Text) {ts us : List Token}
    (same : ts.map Token.word = us.map Token.word) :
    (Draft.start file ts).Alike (Draft.start file' us) := by
  have tokens : (Draft.start file ts).tokens.map Token.word =
      (Draft.start file' us).tokens.map Token.word := by
    rw [Draft.start_tokens, Draft.start_tokens, withEnd_word same]
  have ended := Draft.start_ended file ts
  obtain ⟨t, rest, left⟩ := Draft.exists_start file ts
  obtain ⟨u, rest', right⟩ := Draft.exists_start file' us
  rw [left, right] at tokens
  rw [left] at ended
  rw [left, right]
  exact ⟨ended, tokens, rfl, rfl, rfl, rfl, rfl, rfl, rfl, rfl⟩

theorem finish_alike (file file' : Text) {ts us : List Token}
    (same : ts.map Token.word = us.map Token.word) :
    (Draft.start file ts).finish.Alike (Draft.start file' us).finish := by
  obtain ⟨d', j, _, run', watched', _⟩ := text_stands file' us
  obtain ⟨_, _, d, w, run, watched, d₁, e₁, _, alike, rfl, draft⟩ :=
    (Survey.text_ends layout_laws layout_nested (s := Draft.start file ts) (start_left file ts)
      (w := ⟨Draft.start file' us, []⟩) (start_left file' us) (Draft.start_alike file file' same)).exists_ok
  rw [watched'] at watched
  obtain ⟨_, rfl⟩ := EStateM.Result.ok.inj watched
  rw [Draft.finish_of_ok run, Draft.finish_of_ok run']
  have reached : d'.advance = e₁.advance := draft
  rw [reached]
  exact alike.advance.write _ _ _

structure Program.Alike (p q : Program) : Prop where
  code : p.chunk.code = q.chunk.code
  constants : p.chunk.constants = q.chunk.constants
  ranges : p.spans.map SpanEntry.range = q.spans.map SpanEntry.range

/-- Both are programs that differ in places only, or both are refused in the same words. -/
def SameButPlaces : Except (List Diagnostic) Program → Except (List Diagnostic) Program → Prop
  | .ok p, .ok q => p.Alike q
  | .error ds, .error ds' => ds.map (·.message) = ds'.map (·.message)
  | _, _ => False

theorem compileTokens_alike (file file' : Text) {ts us : List Token}
    (same : ts.map Token.word = us.map Token.word) :
    SameButPlaces (compileTokens file ts) (compileTokens file' us) := by
  have alike := finish_alike file file' same
  unfold compileTokens
  dsimp only
  cases left : (Draft.start file ts).finish.faults with
  | nil =>
    have none := alike.messages
    rw [left] at none
    rw [List.map_eq_nil_iff.1 none.symm]
    exact ⟨alike.code, alike.constants, alike.ranges⟩
  | cons d ds =>
    have some := alike.messages
    rw [left] at some
    cases right : (Draft.start file' us).finish.faults with
    | nil =>
      rw [right] at some
      cases some
    | cons d' ds' =>
      rw [right] at some
      change List.map _ (d :: ds).reverse = List.map _ (d' :: ds').reverse
      rw [List.map_reverse, List.map_reverse, some]

/-- What a source consists of apart from its layout. -/
def Lexed.words (l : Lexed) : List (TokenKind × Text) × Option LexicalFault :=
  (l.tokens.map Token.word, l.failure.map (·.fault))

theorem compile_alike {file file' source source' : Text}
    (same : (Lexer.tokens file source).words = (Lexer.tokens file' source').words) :
    SameButPlaces (compile file source) (compile file' source') := by
  unfold compile
  revert same
  generalize Lexer.tokens file source = l, Lexer.tokens file' source' = l'
  obtain ⟨ts, failure⟩ := l
  obtain ⟨us, failure'⟩ := l'
  intro same
  obtain ⟨words, fault⟩ := Prod.mk.inj same
  cases failure with
  | none =>
    obtain rfl : failure' = none := by simpa using fault.symm
    exact compileTokens_alike file file' words
  | some e =>
    obtain ⟨e', rfl, fault'⟩ := Option.map_eq_some_iff.1 fault.symm
    have message : e.diagnostic.message = e'.diagnostic.message :=
      congrArg LexicalFault.message fault'.symm
    exact congrArg (fun t => [t]) message

theorem SameButPlaces.sameCode {p q : Program} {x y : Except (List Diagnostic) Program}
    (h : SameButPlaces x y) (left : x = .ok p) (right : y = .ok q) : Machine.SameCode p q := by
  subst left right
  exact ⟨h.code, h.constants⟩

/-- Layout does not affect code. Token lists of the same words are compiled alike, from whatever
files; so are sources of the same words, and whatever they are run in, as far as their lines are
answered alike their programs hand over the same lines, end alike and leave the same machine. -/
theorem layout_affects_places_only :
    (∀ (file file' : Text) (ts us : List Token), ts.map Token.word = us.map Token.word →
      SameButPlaces (compileTokens file ts) (compileTokens file' us)) ∧
    ∀ file file' source source' : Text,
      (Lexer.tokens file source).words = (Lexer.tokens file' source').words →
      SameButPlaces (compile file source) (compile file' source') ∧
      ∀ p p' : Program, compile file source = .ok p → compile file' source' = .ok p' →
        ∀ {σ τ : Type} (host : Host σ) (host' : Host τ) (fuel : Nat) (m : Machine) (s : σ) (s' : τ),
          (∀ m line s, (host.write m line s).1 = .ok ()) ∧
              (∀ m line s, (host'.write m line s).1 = .ok ()) ∨
            AnsweredAlike (Machine.handed host fuel p m s) (Machine.handed host' fuel p' m s') →
          Machine.handed host fuel p m s = Machine.handed host' fuel p' m s' ∧
            Machine.EndsAlike p p' (Machine.run host fuel p m s).1 (Machine.run host' fuel p' m s').1 ∧
            ∃ last : Machine, (Machine.run host fuel p m s).2.1 = { last with program := some p } ∧
              (Machine.run host' fuel p' m s').2.1 = { last with program := some p' } := by
  refine ⟨fun file file' ts us same => compileTokens_alike file file' same, ?_⟩
  intro file file' source source' same
  have alike := compile_alike same
  refine ⟨alike, fun p p' compiled compiled' σ τ host host' fuel m s s' answered => ?_⟩
  have code := alike.sameCode compiled compiled'
  refine Machine.run_alike code ?_
  rcases answered with ⟨taken, taken'⟩ | answered
  · exact Machine.answeredAlike_of_taken taken taken' fuel m s s'
  · exact answered

theorem layout_affects_places_only_comment :
    (Lexer.tokens (utf8 "x") (utf8 "print 1 / 0;")).words =
        (Lexer.tokens (utf8 "y") (utf8 "print 1/* by */ /\n\t0 ;")).words ∧
      SameButPlaces (compile (utf8 "x") (utf8 "print 1 / 0;"))
        (compile (utf8 "y") (utf8 "print 1/* by */ /\n\t0 ;")) := by
  have same : (Lexer.tokens (utf8 "x") (utf8 "print 1 / 0;")).words =
      (Lexer.tokens (utf8 "y") (utf8 "print 1/* by */ /\n\t0 ;")).words := by
    decide +kernel
  exact ⟨same, (layout_affects_places_only.2 _ _ _ _ same).1⟩

end StackScript
