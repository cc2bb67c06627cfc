import StackScript.Proofs.Session.Input
import StackScript.Proofs.Tables
import StackScript.Proofs.Text.Encoding

/-! Every diagnostic of an input is about a place in its source, and quotes the line of that place.
Lexical and syntactic faults stand at tokens or at what is no token. A failure at run time stands at a
line that some token is on, and its span, which comes from tokens too, begins on no later line. -/

namespace StackScript

structure Diagnostic.Stands (file source : Text) (d : Diagnostic) : Prop where
  severity : d.severity = .error
  named : d.file = file
  line : 1 ≤ d.line ∧ d.line ≤ source.splitLines.length
  span : ∀ span ∈ d.span, Window file source span ∧ span.line = d.line

/-- A failure at a place in a source. What is blamed begins on its line or before. -/
structure RuntimeError.Stands (file source : Text) (e : RuntimeError) : Prop where
  named : e.file = file
  line : 1 ≤ e.line ∧ e.line ≤ source.splitLines.length
  span : ∀ span ∈ e.span, Window file source span ∧ span.line ≤ e.line

/-- A line of a source by its number, which counts from one: what an excerpt has of it, and the
carriage returns behind that. -/
structure NumberedLine (source : Text) (number : Int) (quoted returns : Text) : Prop where
  place : ∃ before after, source = before ++ (quoted ++ returns) ++ after ∧
    number = before.count Text.newline + 1 ∧
    (before = [] ∨ before.getLast? = some Text.newline) ∧
    (after = [] ∨ after.head? = some Text.newline)
  whole : Text.newline ∉ quoted
  quoted : quoted.getLast? ≠ some 0x0d
  returns : ∀ b ∈ returns, b = 0x0d

def inked (paints : Bool) (color : String) (t : Text) : Text :=
  if paints then utf8 "\x1b[" ++ utf8 color ++ utf8 "m" ++ t ++ utf8 "\x1b[0m" else t

/-- What is as wide as a text and has the same tabs. -/
def under (t : Text) : Text :=
  (Text.runes t).flatMap fun r =>
    if r.char = '\t' then [0x09] else List.replicate (Text.columns r.char) 0x20

/-- An error as it is shown, row by row: what is wrong, where, and then the line with its number and
under it carets, at least one and as many as the span has columns on the line. -/
def Diagnostic.rows (paints : Bool) (d : Diagnostic) (quoted : Text) : List Text :=
  let number := utf8 (toString d.line)
  let margin := List.replicate number.length 0x20
  let bar := inked paints "1;34" (utf8 "|")
  let column := d.span.elim [] fun s => utf8 ":" ++ utf8 (toString (Number.word (s.start + 1)))
  let carets (s : Span) : Text :=
    let window := (quoted.take s.stop.toNat).drop s.start.toNat
    let row := (Text.runes window).flatMap fun r => List.replicate (Text.columns r.char) 0x5e
    if row = [] then [0x5e] else row
  [inked paints "1;31" (utf8 "error") ++ utf8 ": " ++ inked paints "1" d.message,
    utf8 " " ++ inked paints "1;34" (utf8 "-->") ++ utf8 " " ++ d.file ++ utf8 ":" ++ number ++ column,
    margin ++ utf8 " " ++ bar,
    inked paints "1;34" number ++ utf8 " " ++ bar ++ utf8 " " ++ quoted] ++
  d.span.elim [] fun s =>
    [margin ++ utf8 " " ++ bar ++ utf8 " " ++ under (quoted.take s.start.toNat) ++
      inked paints "1;31" (carets s)]

section

variable {file source : Text}

theorem Window.stands {span : Span} (h : Window file source span) (message : Text) :
    (Diagnostic.atSpan span message).Stands file source where
  severity := rfl
  named := h.file
  line := ⟨h.line, h.line_le⟩
  span := by
    rintro _ ⟨⟩
    exact ⟨h, rfl⟩

theorem RuntimeError.Stands.diagnostic {e : RuntimeError} (h : e.Stands file source) :
    e.diagnostic.Stands file source := by
  unfold RuntimeError.diagnostic
  cases found : e.span with
  | some span => exact (h.span span found).1.stands e.message
  | none => exact ⟨rfl, h.named, h.line, nofun⟩

theorem exists_numberedLine {number : Int}
    (bounds : 1 ≤ number ∧ number ≤ source.splitLines.length) :
    ∃ line returns, source.splitLines[(number - 1).toNat]? = some line ∧
      NumberedLine source number (Text.dropTrailing 0x0d line) returns := by
  rw [Text.length_splitLines] at bounds
  obtain ⟨before, after, rfl, count, starts⟩ :=
    source.exists_before (n := (number - 1).toNat) (by omega)
  let line := after.takeWhile (· ≠ Text.newline)
  have found : (before ++ after).splitLines[(number - 1).toNat]? = some line := by
    have blank : before.lastLine = [] := by
      unfold Text.lastLine
      rcases starts with rfl | ends
      · rfl
      · obtain ⟨init, rfl⟩ := List.getLast?_eq_some_iff.1 ends
        simp
    rw [← count, ← Nat.add_sub_cancel_left 1 (before.count _)]
    exact (Text.getElem?_splitLines before after).trans (by rw [blank]; rfl)
  let returns := (line.reverse.takeWhile (· = 0x0d)).reverse
  have split : Text.dropTrailing 0x0d line ++ returns = line := by
    rw [Text.dropTrailing, ← List.reverse_append, List.takeWhile_append_dropWhile, List.reverse_reverse]
  refine ⟨line, returns, found, ⟨before, after.dropWhile (· ≠ Text.newline), ?_, ?_, starts, ?_⟩, ?_, ?_, ?_⟩
  · rw [split, List.append_assoc, List.takeWhile_append_dropWhile]
  · rw [count]
    omega
  · cases rest : after.dropWhile (· ≠ Text.newline) with
    | nil => exact .inl rfl
    | cons b rest =>
      have ends := List.head?_dropWhile_not (· ≠ Text.newline) after
      rw [rest] at ends
      exact .inr (congrArg some (by simpa using ends))
  · intro mem
    have part : Text.newline ∈ line := by
      rw [← split]
      exact List.mem_append_left _ mem
    simpa using List.all_eq_true.1 List.all_takeWhile _ part
  · rw [Text.dropTrailing, List.getLast?_reverse]
    intro head
    have stops := List.head?_dropWhile_not (· = (0x0d : UInt8)) line.reverse
    rw [head] at stops
    simp at stops
  · intro b mem
    simpa using List.all_eq_true.1 List.all_takeWhile b (List.mem_reverse.1 mem)

namespace Excerpt

theorem painted_eq (paints : Bool) (color : String) (t : Text) :
    painted paints (escape color) t = inked paints color t := by
  cases paints
  · rfl
  · simp only [painted, escape, inked, ite_true]
    rfl

theorem lead_eq (t : Text) : lead t = under t := by
  have tab (c : Char) : c.toNat = 0x09 ↔ c = '\t' :=
    ⟨fun same => Char.toNat_inj.1 same, fun same => same ▸ rfl⟩
  simp only [lead, under, tab, Text.spaces]

theorem replicate_width (b : UInt8) (t : Text) : List.replicate (max 1 (width t)) b =
    let row := (Text.runes t).flatMap fun r => List.replicate (Text.columns r.char) b
    if row = [] then [b] else row := by
  have count (rs : List Text.Rune) (n : Nat) :
      List.replicate (rs.foldl (fun n r => n + Text.columns r.char) n) b =
        List.replicate n b ++ rs.flatMap fun r => List.replicate (Text.columns r.char) b := by
    induction rs generalizing n with
    | nil => simp
    | cons r rs ih =>
      rw [List.foldl_cons, ih, List.flatMap_cons, ← List.append_assoc,
        List.replicate_append_replicate]
  have row := count (Text.runes t) 0
  rw [List.replicate_zero, List.nil_append] at row
  rw [← row, ← width]
  cases width t with
  | zero => rfl
  | succ n => rw [if_neg (by simp), Nat.max_eq_right (Nat.succ_pos n)]

theorem pointer_eq {d : Diagnostic} (h : d.Stands file source) : d.pointer =
    d.file ++ utf8 ":" ++ utf8 (toString d.line) ++
      d.span.elim [] fun s => utf8 ":" ++ utf8 (toString (Number.word (s.start + 1))) := by
  unfold Diagnostic.pointer
  cases spanned : d.span with
  | none =>
    have := h.line.1
    simp only [if_pos (show 0 < d.line by omega), Text.decimal_eq, Option.elim, List.append_nil]
  | some s =>
    obtain ⟨window, line⟩ := h.span s spanned
    simp only [window.file, h.named, line, Text.decimal_eq, Option.elim, Span.column, List.append_assoc]

theorem caret_eq (quoted : Text) (start stop : Int) : caret quoted start stop =
    (under (quoted.take start.toNat),
      max 1 (width ((quoted.take stop.toNat).drop start.toNat))) := by
  have first : quoted.take (min start.toNat quoted.length) = quoted.take start.toNat := by
    rw [← List.take_take, List.take_length]
  have last : quoted.take (min stop.toNat quoted.length) = quoted.take stop.toNat := by
    rw [← List.take_take, List.take_length]
  have cut : (quoted.take stop.toNat).drop (min start.toNat quoted.length) =
      (quoted.take stop.toNat).drop start.toNat := by
    rcases Nat.le_total start.toNat quoted.length with short | long
    · rw [Nat.min_eq_left short]
    · have size : (quoted.take stop.toNat).length ≤ quoted.length := List.length_take_le' _ _
      rw [Nat.min_eq_right long, List.drop_eq_nil_of_le size, List.drop_eq_nil_of_le (Nat.le_trans size long)]
  rw [caret, first, last, cut, lead_eq]

theorem render_eq {d : Diagnostic} (h : d.Stands file source) {lookup : Text → Option Text}
    (known : lookup file = some source) (paints : Bool) :
    ∃ quoted returns, NumberedLine source d.line quoted returns ∧
      render paints lookup d = (d.rows paints quoted).flatMap (· ++ utf8 "\n") := by
  obtain ⟨line, returns, found, numbered⟩ := exists_numberedLine h.line
  refine ⟨_, returns, numbered, ?_⟩
  have place : d.span.elim d.line (·.line) = d.line ∧ d.span.elim d.file (·.file) = file := by
    cases spanned : d.span with
    | none => exact ⟨rfl, h.named⟩
    | some span => exact ⟨(h.span span spanned).2, (h.span span spanned).1.file⟩
  have positive : ¬ d.line ≤ 0 := by
    have := h.line.1
    omega
  unfold render body
  dsimp only
  rw [place.1, place.2, if_neg positive, known]
  simp only [Option.bind_some, sourceLine?, found, Option.map_some, h.severity, severityPaint,
    boldPaint, gutterPaint, painted_eq, Text.decimal_eq, Text.spaces, pointer_eq h, caret_eq,
    replicate_width]
  cases spanned : d.span with
  | none =>
    simp only [Diagnostic.rows, spanned, Option.elim, List.append_nil, List.flatMap_cons, List.flatMap_nil,
      List.append_assoc]
    rfl
  | some s =>
    simp only [Diagnostic.rows, spanned, Option.elim, List.flatMap_cons, List.flatMap_nil, List.cons_append,
      List.nil_append, List.append_nil, List.append_assoc]
    rfl

end Excerpt

theorem Interpreter.render_accept {d : Diagnostic} (h : d.Stands file source) (i : Interpreter)
    (disk : Text → Option Text) :
    ∃ quoted returns, NumberedLine source d.line quoted returns ∧
      (i.accept file source).render disk d =
        (d.rows i.paints quoted).flatMap (· ++ utf8 "\n") :=
  Excerpt.render_eq h (by simp [accept]) i.paints

theorem stands_of_faulty {ds : List Diagnostic} (faulty : compile file source = .error ds) :
    ∀ d ∈ ds, d.Stands file source := by
  have windowed := tokens_windowed file source
  unfold compile at faulty
  cases lexed : Lexer.tokens file source with
  | mk tokens failure =>
    rw [lexed] at faulty windowed
    cases failure with
    | some e =>
      obtain rfl := Except.error.inj faulty
      intro d mem
      obtain rfl := List.mem_singleton.1 mem
      exact (windowed.failure e rfl).stands _
    | none =>
      have found : diagnostics file tokens = ds := by
        rw [diagnostics]
        simp only [faulty]
      obtain ⟨d, j, read, run, _, standing⟩ := text_stands file tokens
      obtain ⟨anchors, faults, anchored, _⟩ := standing.anchored.exists_anchors
      rw [withEnd_tokens lexed] at anchored
      rw [← found, diagnostics_of_run run, d.advance_faults.1, faults]
      intro d mem
      obtain ⟨a, listed, rfl⟩ := List.mem_map.1 (List.mem_reverse.1 mem)
      exact (windowed.tokens _ (List.mem_of_getElem? (anchored a listed).1)).1.stands _

theorem stands_of_located {p : Program} (compiled : compile file source = .ok p) {offset : Nat}
    {b : UInt8} (byte : p.chunk.code[offset]? = some b) (op : UInt8) (fault : MachineFault) :
    (RuntimeError.locate p offset op fault).Stands file source := by
  obtain ⟨tokens, lexed, compiled⟩ := exists_tokens compiled
  have windowed := tokens_windowed file source
  rw [lexed] at windowed
  have known : ∀ t ∈ withEnd file tokens, t.From (Window file source) 1 := by
    rw [withEnd_tokens lexed]
    exact fun t mem => ⟨(windowed.tokens t mem).1, (windowed.tokens t mem).1.line⟩
  have ordered : Ordered (withEnd file tokens) := by
    rw [withEnd_tokens lexed]
    exact windowed.ordered
  obtain ⟨named, d, tabled, chunk, spans⟩ :=
    tabled_of_compileTokens compiled (fun _ _ first _ => first.join) known ordered
  have inside : offset < d.chunk.code.size := by
    rw [← chunk]
    exact (Array.getElem?_eq_some_iff.1 byte).1
  refine ⟨named, ?_, fun span found => ?_⟩
  · obtain ⟨e, mem, line⟩ := tabled.ruled.exists_lineIn inside
    obtain ⟨span, window, same⟩ := tabled.lines e mem
    have here : (RuntimeError.locate p offset op fault).line = span.line := by
      rw [same, ← line, ← Chunk.lineAt_eq, ← chunk]
      rfl
    rw [here]
    exact ⟨window.line, window.line_le⟩
  · have recorded : d.spans.find? offset = some span := by
      rw [← spans]
      exact found
    obtain ⟨e, mem, start, stop, rfl⟩ := SpanTable.exists_of_find? recorded
    obtain ⟨window, _, above⟩ := tabled.spans e mem
    refine ⟨window, ?_⟩
    have line := above offset start stop
    rwa [← chunk] at line

end

/-- The diagnostics that are shown with a verdict. -/
def Verdict.shown : Verdict → List Diagnostic
  | .rejected => [{ message := busyMessage }]
  | .faulty ds => ds
  | .ended (.failed e) => [e.diagnostic]
  | .ended _ => []

/-- An interpreter that deals with an input, of which nothing but its machine has changed since it
accepted the input. -/
def Interpreter.Engaged (accepted i : Interpreter) : Prop := ∃ m, i = { accepted with machine := m }

namespace Session

def errors (c : Channel) (s : Session) : Array UInt8 :=
  match c with
  | .primary => s.err
  | .secondary => s.errSecondary

/-- The session in which an input has been judged, before any diagnostic is shown. -/
def judged (inside : Inside) (target : Nat) (file source : Text) (s : Session) : Session :=
  match compile file source with
  | .error _ => s.opened inside target file source
  | .ok p => ((s.opened inside target file source).ran inside target p).2.2

/-- The failure is one that writes are refused with. -/
def Supplies (s : Session) (e : RuntimeError) : Prop := ∃ first, s.gate.refusal = some ⟨first, .failure e⟩

section

variable {s : Session} {target : Nat} {j : Interpreter}

theorem append_toList (buffer : Array UInt8) (t : Text) : (append buffer t).toList = buffer.toList ++ t := by
  simp [append]

@[simp] theorem disk_report (s : Session) (target : Nat) (d : Diagnostic) :
    (s.report target d).disk = s.disk := by
  refine s.report_elim target d (fun c t => ?_) rfl
  cases c <;> rfl

theorem errors_report (there : s.interpreters[target]? = some j) (d : Diagnostic) :
    ((s.report target d).errors j.err).toList = (s.errors j.err).toList ++ j.render s.disk d := by
  simp only [report, there, complain]
  cases j.err with
  | primary => exact append_toList _ _
  | secondary => exact append_toList _ _

theorem errors_reports (there : s.interpreters[target]? = some j) (ds : List Diagnostic) :
    let last := ds.foldl (fun s d => s.report target d) s
    last.disk = s.disk ∧
      (last.errors j.err).toList = (s.errors j.err).toList ++ ds.flatMap (j.render s.disk) := by
  induction ds generalizing s with
  | nil => exact ⟨rfl, (List.append_nil _).symm⟩
  | cons d ds ih =>
    obtain ⟨disk, shown⟩ := ih (s := s.report target d) (by rw [interpreters_report, there])
    refine ⟨disk.trans (disk_report _ _ _), shown.trans ?_⟩
    rw [errors_report there, disk_report, List.flatMap_cons, List.append_assoc]

theorem errors_concluded {r : Ending × Machine × Session} (there : r.2.2.interpreters[target]? = some j) :
    (concluded target r).disk = r.2.2.disk ∧ ((concluded target r).errors j.err).toList =
      (r.2.2.errors j.err).toList ++ (Verdict.ended r.1).shown.flatMap (j.render r.2.2.disk) := by
  obtain ⟨_ | e | _, m, s⟩ := r
  · exact ⟨rfl, (List.append_nil _).symm⟩
  · have known : (s.modify target ({ · with machine := m })).interpreters[target]? =
        some { j with machine := m } := by
      rw [interpreters_modify, if_pos rfl, there]
      rfl
    exact errors_reports (interpreters_failWith known (.runtime e)) [e.diagnostic]
  · exact ⟨rfl, (List.append_nil _).symm⟩

end

section

variable {s start : Session} {target k : Nat} {i : Interpreter} {inside : Inside}
  {rows : List (List Request)} {file source : Text}

theorem engaged_machine {accepted : Interpreter} (m : Machine) (j : Interpreter)
    (engaged : accepted.Engaged j) : accepted.Engaged { j with machine := m } := by
  obtain ⟨_, rfl⟩ := engaged
  exact ⟨m, rfl⟩

theorem bears_engaged (admits : Admits target (i.accept file source).Engaged rows inside) :
    Bears inside target (Held target (i.accept file source).Engaged rows start) :=
  Held.bears admits engaged_machine

theorem errors_interpret (found : s.interpreters[target]? = some i) (idle : i.busy = false)
    (admits : Admits target (i.accept file source).Engaged rows inside) :
    let r := s.interpret inside target file source
    (r.2.errors i.err).toList = ((s.judged inside target file source).errors i.err).toList ++
      (s.verdict inside target file source).shown.flatMap ((i.accept file source).render r.2.disk) := by
  intro r
  -- What an excerpt is made from, the paint and the sources, stays as it was when the input was accepted.
  have held := held_opened admits found ⟨_, rfl⟩
  obtain ⟨j, there, m, rfl⟩ := held.has
  cases compiled : compile file source with
  | error ds =>
    obtain ⟨disk, shown⟩ := errors_reports (interpreters_failWith there (.faults ds)) ds
    have last : r.2 = _ := congrArg Prod.snd (interpret_of_faults found idle compiled)
    rw [last, verdict_of_faults found idle compiled]
    simp only [judged, compiled]
    exact shown.trans (by rw [← disk]; rfl)
  | ok p =>
    have after : Held target (i.accept file source).Engaged rows s
        ((s.opened inside target file source).ran inside target p).2.2 :=
      Machine.run_keeps ((bears_engaged admits).host _) _ _ held
    obtain ⟨_, there', m', rfl⟩ := after.has
    obtain ⟨disk, shown⟩ := errors_concluded there'
    have last : r.2 = _ := congrArg Prod.snd (interpret_of_program found idle compiled there)
    rw [last, verdict_of_program found idle compiled]
    simp only [judged, compiled]
    exact shown.trans (by rw [← disk]; rfl)

theorem Held.refusal_of_error {P : Interpreter → Prop} (held : Held target P rows start s)
    (admits : Admits target P rows inside) {line : Text} {f : WriteFault}
    (refused : (s.writeFrom inside k line).1 = .error f) :
    ∃ first, start.gate.refusal = some ⟨first, f⟩ := by
  rcases writeFrom_cases inside k line s with ⟨_, taken, _⟩ | ⟨_, answered, _⟩
  · cases taken.symm.trans refused
  · have answer := answered.symm.trans refused
    rw [held.answer admits] at answer
    exact Gate.refusal_of_answer answer

/-- A program fails at one of its instructions, unless the failure comes with a refused write. -/
theorem stands_of_ran {p : Program} {e : RuntimeError} (compiled : compile file source = .ok p)
    (admits : Admits target (i.accept file source).Engaged rows inside)
    (held : Held target (i.accept file source).Engaged rows s start)
    (failed : (start.ran inside target p).1 = .failed e) : s.Supplies e ∨ e.Stands file source := by
  rcases ended : start.ran inside target p with ⟨ending, m, last⟩
  rw [ended] at failed
  obtain rfl : ending = .failed e := failed
  obtain ⟨n, x, m', steps, stops⟩ := Machine.stops_of_failed ended
  have bears : Bears inside target (Held target (i.accept file source).Engaged rows s) :=
    bears_engaged admits
  have keeps : (start.hostAt inside target).Keeps (Held target (i.accept file source).Engaged rows s) :=
    bears.host _
  -- Where the run stops, writes are still refused as they were when it began.
  have here := steps.leaves keeps held
  cases stops with
  | refused fetched => exact .inr (stands_of_located compiled (Machine.byte_of_refused fetched) _ _)
  | fault fetched _ => exact .inr (stands_of_located compiled (Machine.byte_of_ready fetched) _ _)
  | @write m₁ _ _ _ x line f fetched _ written =>
    cases f with
    | message text => exact .inr (stands_of_located compiled (Machine.byte_of_ready fetched) _ _)
    | failure e =>
      have stored := bears.machine m' (keeps.trace p m₁ x here)
      exact .inl (stored.refusal_of_error admits (congrArg Prod.fst written))

theorem errors_writeFrom (c : Channel) (line : Text) (s : Session) :
    (s.writeFrom undisturbed target line).2.errors c = s.errors c := by
  unfold writeFrom write
  split
  · cases c <;> rfl
  · dsimp only
    split
    · split
      · cases c <;> rfl
      · cases c <;> rfl
    · cases c <;> rfl

/-- Without calls inside and without traces nothing is shown before the diagnostics. -/
theorem errors_judged (found : s.interpreters[target]? = some i) (quiet : i.options.debug = false)
    (c : Channel) : (s.judged undisturbed target file source).errors c = s.errors c := by
  have opened : (s.opened undisturbed target file source).errors c = s.errors c := by
    unfold Session.opened
    dsimp only
    split
    · refine dumpTokens_keeps (P := fun s' => s'.errors c = s.errors c) (fun line s' before => ?_) _ ?_
      · exact (errors_writeFrom c line s').trans before
      · cases c <;> rfl
    · cases c <;> rfl
  unfold judged
  split
  · exact opened
  · next p _ =>
    have held := held_opened (admits_undisturbed target (i.accept file source).Engaged) found ⟨_, rfl⟩
    obtain ⟨_, there, m, rfl⟩ := held.has
    have hosted : (s.opened undisturbed target file source).hostAt undisturbed target =
        host undisturbed target false := by
      simp only [hostAt, there, Option.elim]
      exact congrArg _ quiet
    have keeps : (host undisturbed target false).Keeps fun s' => s'.errors c = s.errors c :=
      ⟨fun m line s' before => (errors_writeFrom c line _).trans (by cases c <;> exact before),
        fun _ _ _ _ before => before⟩
    rw [ran, hosted]
    exact Machine.run_keeps keeps _ _ opened

theorem requestsAt_nil : requestsAt [] = undisturbed := by
  funext n s
  unfold requestsAt
  rfl

section

variable (found : s.interpreters[target]? = some i) (idle : i.busy = false)
  (admits : Admits target (i.accept file source).Engaged rows inside)

include found idle admits

theorem stands_of_ended {e : RuntimeError}
    (ended : s.verdict inside target file source = .ended (.failed e)) :
    s.Supplies e ∨ e.Stands file source := by
  cases compiled : compile file source with
  | error ds => cases (verdict_of_faults found idle compiled).symm.trans ended
  | ok p =>
    refine stands_of_ran compiled admits (held_opened admits found ⟨_, rfl⟩) ?_
    exact Verdict.ended.inj ((verdict_of_program found idle compiled).symm.trans ended)

theorem stands_of_shown {d : Diagnostic} (mem : d ∈ (s.verdict inside target file source).shown) :
    (∃ e, s.verdict inside target file source = .ended (.failed e) ∧ s.Supplies e) ∨
      d.Stands file source := by
  have failures {e : RuntimeError} := stands_of_ended (e := e) found idle admits
  cases compiled : compile file source with
  | error ds =>
    rw [verdict_of_faults found idle compiled] at mem
    exact .inr (stands_of_faulty compiled d mem)
  | ok p =>
    have judged : s.verdict inside target file source = .ended _ := verdict_of_program found idle compiled
    generalize Prod.fst _ = ending at judged
    rw [judged] at mem failures ⊢
    cases ending with
    | finished | unfinished => cases mem
    | failed e =>
      obtain rfl := List.mem_singleton.1 mem
      rcases failures rfl with supplied | stands
      · exact .inl ⟨e, rfl, supplied⟩
      · exact .inr stands.diagnostic

end

/-- On an idle interpreter, with any calls on other interpreters inside its writes. At the end of an input
the diagnostics of the verdict are shown, and only they where nothing is called and no trace is
wanted. Each is about a place in the source and quotes the line of that place without the carriage
returns at its end; and the place that a failure at run time blames begins on the line of the failure
or before. Only a failure that comes with a refused write is from elsewhere. -/
theorem diagnostics_quote_source (found : s.interpreters[target]? = some i) (idle : i.busy = false)
    (file source : Text) (inside : List (List Request))
    (others : ∀ rs ∈ inside, ∀ r ∈ rs, r.All fun k _ => k ≠ target) :
    let r := s.interpret (requestsAt inside) target file source
    let verdict := s.verdict (requestsAt inside) target file source
    let before := s.judged (requestsAt inside) target file source
    r.1 = verdict.outcome ∧ r.2.lastError target = verdict.error ∧
    (r.2.errors i.err).toList = (before.errors i.err).toList ++
      verdict.shown.flatMap ((i.accept file source).render r.2.disk) ∧
    (inside = [] → i.options.debug = false → before.errors i.err = s.errors i.err) ∧
    (∀ e, verdict = .ended (.failed e) → s.Supplies e ∨ e.Stands file source) ∧
    ∀ d ∈ verdict.shown, (∃ e, verdict = .ended (.failed e) ∧ s.Supplies e) ∨
      d.Stands file source ∧ ∃ quoted returns, NumberedLine source d.line quoted returns ∧
        (i.accept file source).render r.2.disk d =
          (d.rows i.paints quoted).flatMap (· ++ utf8 "\n") := by
  intro r verdict before
  have steadfast : Steadfast (fun _ => False) (i.accept file source).Engaged := by
    refine ⟨?_, fun never => never.elim⟩
    rintro _ ⟨m, rfl⟩
    rfl
  have admits := requestsAt_turnedAway steadfast inside others
  obtain ⟨_, _, _, ⟨m, rfl⟩, outcome, _, after⟩ :=
    interpret_course found idle admits ⟨_, rfl⟩ engaged_machine
  refine ⟨outcome, ?_, errors_interpret found idle admits, ?_,
    fun e => stands_of_ended found idle admits, fun d mem => ?_⟩
  · rw [lastError, show r.2.interpreters[target]? = _ from after]
    exact Option.or_none
  · rintro rfl quiet
    simp only [before, requestsAt_nil]
    exact errors_judged found quiet i.err
  · rcases stands_of_shown found idle admits mem with supplied | stands
    · exact .inl supplied
    · exact .inr ⟨stands, i.render_accept stands r.2.disk⟩

theorem diagnostics_quote_source_undefined :
    let source := utf8 "print 1;\r\nprint\n a;\r\n"
    let e : RuntimeError := {
      fault := .undefinedVariable (utf8 "a"), file := utf8 "t", line := 3, ip := 4,
      op := Opcode.getGlobal.toByte, span := some ⟨utf8 "t", 3, 1, 2⟩ }
    let r := (new {}).interpret (requestsAt []) 0 (utf8 "t") source
    r.2.lastError 0 = some (.runtime e) ∧ e.Stands (utf8 "t") source ∧
      (∃ quoted returns, NumberedLine source 3 quoted returns ∧
        r.2.err.toList = (e.diagnostic.rows false quoted).flatMap (· ++ utf8 "\n")) ∧
      r.2.err.toList =
        utf8 "error: undefined variable `a`\n --> t:3:2\n  |\n3 |  a;\n  |  ^\n" := by
  intro source e r
  have found : (new {}).interpreters[0]? = some (Interpreter.new {}) := rfl
  have failed : r.2.lastError 0 = some (.runtime e) := by decide +kernel
  obtain ⟨_, known, shown, first, stands, quotes⟩ :=
    diagnostics_quote_source found rfl (utf8 "t") source [] (by simp)
  have ended : verdict (requestsAt []) 0 (utf8 "t") source (new {}) = .ended (.failed e) := by
    have error := known.symm.trans failed
    generalize verdict _ 0 _ _ (new {}) = v at error
    rcases v with _ | _ | _ | _ | _
    all_goals cases error
    rfl
  have writes : ¬ (new {}).Supplies e := by
    rintro ⟨_, ⟨⟩⟩
  rw [ended] at shown quotes
  obtain ⟨_, quoted, returns, numbered, drawn⟩ :=
    (quotes e.diagnostic (List.mem_singleton.2 rfl)).resolve_left fun ⟨_, same, supplied⟩ =>
      writes (by cases same; exact supplied)
  have place (s : Session) : s.errors (Interpreter.new {}).err = s.err := rfl
  have paints : (Interpreter.new {}).paints = false := rfl
  have blank : (new {}).err.toList = [] := rfl
  rw [first rfl rfl, place, place, blank, List.nil_append] at shown
  refine ⟨failed, (stands e ended).resolve_left writes, ⟨quoted, returns, numbered, ?_⟩, ?_⟩
  · simp only [Verdict.shown, List.flatMap_cons, List.flatMap_nil, List.append_nil] at shown
    rw [← paints, ← drawn, ← shown]
  · decide +kernel

end

end Session

end StackScript
