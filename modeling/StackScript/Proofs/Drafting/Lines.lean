import StackScript.Proofs.Assembly.LineTable
import StackScript.Proofs.Drafting.Reading

/-! The tables that lead back to the source. Every byte has a line that is not above the tokens it
was written for, and every span that is recorded for some code begins on a line that is not behind
the line of that code. What spans are fit to be recorded is a parameter. -/

namespace StackScript

open Build

structure Token.From (S : Span → Prop) (line : Int) (t : Token) : Prop where
  fit : S t.span
  le : line ≤ t.span.line

namespace Draft

structure Tabled (S : Span → Prop) (d : Draft) : Prop where
  ruled : Ruled d.chunk.code.size d.chunk.lines.toList
  lines : ∀ e ∈ d.chunk.lines.toList, ∃ span, S span ∧ span.line = e.line
  spans : ∀ e ∈ d.spans.toList, S e.span ∧ e.stop ≤ d.chunk.code.size ∧
    ∀ offset : Nat, e.start ≤ offset → (offset : Int) < e.stop →
      e.span.line ≤ d.chunk.lineAt offset

structure Grows (S : Span → Prop) (line : Int) (d d' : Draft) : Prop where
  tabled : d'.Tabled S
  size : d.chunk.code.size ≤ d'.chunk.code.size
  kept : ∀ offset : Nat, offset < d.chunk.code.size → d'.chunk.lineAt offset = d.chunk.lineAt offset
  fresh : ∀ offset : Nat, d.chunk.code.size ≤ offset → offset < d'.chunk.code.size →
    line ≤ d'.chunk.lineAt offset

namespace Grows

variable {S : Span → Prop} {line higher : Int} {d d' d'' : Draft}

theorem trans (h : d.Grows S line d') (h' : d'.Grows S line d'') : d.Grows S line d'' := by
  refine ⟨h'.tabled, Nat.le_trans h.size h'.size, fun offset inside => ?_, fun offset le inside => ?_⟩
  · rw [h'.kept offset (Nat.lt_of_lt_of_le inside h.size), h.kept offset inside]
  · by_cases earlier : offset < d'.chunk.code.size
    · rw [h'.kept offset earlier]
      exact h.fresh offset le earlier
    · exact h'.fresh offset (Nat.not_lt.1 earlier) inside

theorem mono (h : d.Grows S higher d') (le : line ≤ higher) : d.Grows S line d' :=
  ⟨h.tabled, h.size, h.kept, fun offset le' inside => Int.le_trans le (h.fresh offset le' inside)⟩

theorem of_same (h : d.Tabled S) (size : d'.chunk.code.size = d.chunk.code.size)
    (lines : d'.chunk.lines = d.chunk.lines) (spans : d'.spans = d.spans) : d.Grows S line d' := by
  have same (offset : Int) : d'.chunk.lineAt offset = d.chunk.lineAt offset := by
    rw [Chunk.lineAt_eq, Chunk.lineAt_eq, lines]
  refine ⟨⟨?_, ?_, ?_⟩, Nat.le_of_eq size.symm, fun offset _ => same offset, ?_⟩
  · rw [size, lines]
    exact h.ruled
  · rw [lines]
    exact h.lines
  · rw [spans, size]
    intro e mem
    obtain ⟨fit, stop, above⟩ := h.spans e mem
    refine ⟨fit, stop, fun offset start inside => ?_⟩
    rw [same]
    exact above offset start inside
  · intro offset le inside
    omega

theorem advance (h : d.Tabled S) : d.Grows S line d.advance := by
  have chunk := d.advance_chunk
  exact of_same h (by rw [chunk]) (by rw [chunk]) d.advance_spans

theorem write (h : d.Tabled S) {b : UInt8} {span : Span} (fit : S span) (le : line ≤ span.line) :
    d.Grows S line (d.write b span.line) := by
  have extended := h.ruled.extends span.line
  have size : (d.write b span.line).chunk.code.size = d.chunk.code.size + 1 := Array.size_push _
  have kept (offset : Nat) (inside : offset < d.chunk.code.size) :
      (d.write b span.line).chunk.lineAt offset = d.chunk.lineAt offset := by
    rw [Chunk.lineAt_eq, Chunk.lineAt_eq]
    exact extended.kept offset inside
  refine ⟨⟨?_, ?_, ?_⟩, by omega, kept, ?_⟩
  · rw [size]
    exact extended.ruled
  · intro e mem
    rcases extended.known e mem with same | ⟨e', mem', same⟩
    · exact ⟨span, fit, same.symm⟩
    · obtain ⟨known, fit', line'⟩ := h.lines e' mem'
      exact ⟨known, fit', line'.trans same⟩
  · intro e mem
    obtain ⟨fit', stop, above⟩ := h.spans e mem
    refine ⟨fit', by omega, fun offset start inside => ?_⟩
    rw [kept offset (by omega)]
    exact above offset start inside
  · intro offset behind inside
    obtain rfl : offset = d.chunk.code.size := by omega
    rw [Chunk.lineAt_eq]
    exact Int.le_trans le extended.fresh

theorem mark (h : d.Grows S line d') {span : Span} (fit : S span) (le : span.line ≤ line) :
    d.Grows S line (d'.recordSpan d.chunk.code.size span) := by
  refine ⟨⟨h.tabled.ruled, h.tabled.lines, ?_⟩, h.size, h.kept, h.fresh⟩
  intro e mem
  unfold recordSpan SpanTable.add at mem
  dsimp only at mem
  split at mem
  · exact h.tabled.spans e mem
  · rw [Array.toList_push] at mem
    rcases List.mem_append.1 mem with mem | mem
    · exact h.tabled.spans e mem
    · cases List.mem_singleton.1 mem
      refine ⟨fit, Int.le_refl _, fun offset start inside => ?_⟩
      have later : d.chunk.code.size ≤ offset := Int.ofNat_le.1 start
      exact Int.le_trans le (h.fresh offset later (Int.ofNat_lt.1 inside))

theorem writeWide (h : d.Tabled S) {n : Nat} {span : Span} (fit : S span) (le : line ≤ span.line) :
    d.Grows S line (d.writeWide n span.line) := by
  have first : d.Grows S line (d.write (Chunk.highByte n) span.line) := write h fit le
  exact first.trans (write first.tabled fit le)

variable {t : Token}

theorem emitAt (h : d.Tabled S) (known : t.From S line) (op : Opcode) :
    d.Grows S line (d.emitAt op t) :=
  ((write h known.fit (Int.le_refl _)).mark known.fit (Int.le_refl _)).mono known.le

theorem emitByteAt (h : d.Tabled S) (known : t.From S line) (op : Opcode) (n : Nat) :
    d.Grows S line (d.emitByteAt op n t) := by
  have first : d.Grows S t.span.line (d.write op.toByte t.span.line) :=
    write h known.fit (Int.le_refl _)
  have both := first.trans (write (b := UInt8.ofNat n) first.tabled known.fit (Int.le_refl _))
  exact (both.mark known.fit (Int.le_refl _)).mono known.le

theorem emitWideAt (h : d.Tabled S) (known : t.From S line) (op : Opcode) (n : Nat) :
    d.Grows S line (d.emitWideAt op n t) := by
  have first : d.Grows S t.span.line (d.write op.toByte t.span.line) :=
    write h known.fit (Int.le_refl _)
  have whole := first.trans (writeWide (n := n) first.tabled known.fit (Int.le_refl _))
  exact (whole.mark known.fit (Int.le_refl _)).mono known.le

theorem emit (h : d.Tabled S) (known : d.previous.From S line) (op : Opcode) :
    d.Grows S line (d.emit op) := write h known.fit known.le

theorem emitWide (h : d.Tabled S) (known : d.previous.From S line) (op : Opcode) (n : Nat) :
    d.Grows S line (d.emitWide op n) := by
  have first := emit h known op
  exact first.trans (writeWide first.tabled known.fit known.le)

theorem emitPops (h : d.Tabled S) (known : d.previous.From S line) (n : Nat) :
    d.Grows S line (Draft.emitPops n d) := by
  induction n generalizing d with
  | zero => exact of_same h rfl rfl rfl
  | succ n ih =>
    have first := emit h known .pop
    exact first.trans (ih first.tabled known)

theorem leaveBlock (h : d.Tabled S) (known : d.previous.From S line) :
    d.Grows S line d.leaveBlock := by
  have left : d.Grows S line { d with scope := d.scope.leave } := of_same h rfl rfl rfl
  exact left.trans (emitPops left.tabled known d.scope.owned)

end Grows

end Draft

/-- A run that reads the tokens and writes for tokens from a line on. -/
structure Lines {α : Type} (S : Span → Prop) (line : Int) (ts : List Token) (x : Build α) : Prop where
  takes : Takes ts x
  grows : ∀ ⦃d rest a d'⦄, d.tokens = ts ++ rest → rest ≠ [] → d.Tabled S → d.previous.From S line →
    x.run d = .ok a d' → d.Grows S line d' ∧ d'.previous.From S line

structure Starts {α : Type} (S : Span → Prop) (line : Int) (ts : List Token) (x : Build α) : Prop where
  takes : Takes ts x
  grows : ∀ ⦃d rest a d'⦄, d.tokens = ts ++ rest → rest ≠ [] → d.Tabled S → x.run d = .ok a d' →
    d.Grows S line d' ∧ d'.previous.From S line

variable {α β : Type} {S : Span → Prop} {line : Int} {ts us : List Token}

theorem Starts.lines {x : Build α} (h : Starts S line ts x) : Lines S line ts x :=
  ⟨h.takes, fun _ _ _ _ tokens more tabled _ run => h.grows tokens more tabled run⟩

theorem Starts.bind {x : Build α} {f : α → Build β} (first : Starts S line ts x)
    (second : ∀ a, Lines S line us (f a)) : Starts S line (ts ++ us) (x >>= f) := by
  refine ⟨first.takes.bind fun a => (second a).takes, fun d rest b d' tokens more tabled run => ?_⟩
  obtain ⟨a, d₁, run₁, run₂⟩ := run_bind_eq_ok.1 run
  rw [List.append_assoc] at tokens
  have more' : us ++ rest ≠ [] := by simp [more]
  obtain ⟨grown, known⟩ := first.grows tokens more' tabled run₁
  obtain ⟨tokens₁, _⟩ := first.takes tokens more' run₁
  obtain ⟨grown', known'⟩ := (second a).grows tokens₁ more grown.tabled known run₂
  exact ⟨grown.trans grown', known'⟩

theorem Starts.bind_left {x : Build α} {f : α → Build β} (first : Starts S line ts x)
    (second : ∀ a, Lines S line [] (f a)) : Starts S line ts (x >>= f) := by
  simpa using first.bind second

namespace Lines

theorem bind {x : Build α} {f : α → Build β} (first : Lines S line ts x)
    (second : ∀ a, Lines S line us (f a)) : Lines S line (ts ++ us) (x >>= f) := by
  refine ⟨first.takes.bind fun a => (second a).takes, fun d rest b d' tokens more tabled known run => ?_⟩
  obtain ⟨a, d₁, run₁, run₂⟩ := run_bind_eq_ok.1 run
  rw [List.append_assoc] at tokens
  have more' : us ++ rest ≠ [] := by simp [more]
  obtain ⟨grown, known⟩ := first.grows tokens more' tabled known run₁
  obtain ⟨tokens₁, _⟩ := first.takes tokens more' run₁
  obtain ⟨grown', known'⟩ := (second a).grows tokens₁ more grown.tabled known run₂
  exact ⟨grown.trans grown', known'⟩

theorem bind_left {x : Build α} {f : α → Build β} (first : Lines S line ts x)
    (second : ∀ a, Lines S line [] (f a)) : Lines S line ts (x >>= f) := by
  simpa using first.bind second

theorem bind_right {x : Build α} {f : α → Build β} (first : Lines S line [] x)
    (second : ∀ a, Lines S line ts (f a)) : Lines S line ts (x >>= f) := first.bind second

theorem of_pure (a : α) : Lines S line [] (pure a : Build α) := by
  refine ⟨.of_pure a, fun d rest b d' _ _ tabled known run => ?_⟩
  cases run
  exact ⟨.of_same tabled rfl rfl rfl, known⟩

theorem of_get : Lines S line [] (get : Build Draft) := by
  refine ⟨.of_get, fun d rest b d' _ _ tabled known run => ?_⟩
  cases run
  exact ⟨.of_same tabled rfl rfl rfl, known⟩

theorem of_modify {f : Draft → Draft} (same : ∀ d : Draft, d.SameReading (f d))
    (grows : ∀ d : Draft, d.Tabled S → d.previous.From S line → d.Grows S line (f d)) :
    Lines S line [] (modify f : Build Unit) := by
  refine ⟨.of_modify same, fun d rest b d' _ _ tabled known run => ?_⟩
  cases run
  refine ⟨grows d tabled known, ?_⟩
  rw [(same d).previous]
  exact known

theorem of_still {f : Draft → Draft} (same : ∀ d : Draft, d.SameReading (f d))
    (size : ∀ d, (f d).chunk.code.size = d.chunk.code.size)
    (lines : ∀ d, (f d).chunk.lines = d.chunk.lines) (spans : ∀ d, (f d).spans = d.spans) :
    Lines S line [] (modify f : Build Unit) :=
  of_modify same fun d tabled _ => .of_same tabled (size d) (lines d) (spans d)

theorem of_fail (t : Token) (fault : SyntaxFault) : Lines S line ts (fail t fault : Build α) := by
  refine ⟨.of_fail t fault, fun d rest b d' _ _ _ _ run => ?_⟩
  cases run

theorem of_ite {p : Prop} [Decidable p] {x y : Build α} (yes : Lines S line ts x)
    (no : Lines S line ts y) : Lines S line ts (if p then x else y) := by
  split
  · exact yes
  · exact no

theorem of_emit (op : Opcode) : Lines S line [] (emit op) :=
  of_modify (fun _ => ⟨rfl, rfl, rfl, rfl⟩) fun _ tabled known => .emit tabled known op

theorem of_emitAt {t : Token} (known : t.From S line) (op : Opcode) :
    Lines S line [] (modify (·.emitAt op t) : Build Unit) :=
  of_modify (fun _ => ⟨rfl, rfl, rfl, rfl⟩) fun _ tabled _ => .emitAt tabled known op

theorem of_emitFor {t : Token} (known : t.From S line) (op : Option Opcode) :
    Lines S line [] (emitFor op t) := by
  cases op with
  | some op => exact of_emitAt known op
  | none => exact of_pure ()

theorem of_emitConstant (v : Value) : Lines S line [] (emitConstant v) := by
  refine of_get.bind_right fun d => of_ite ?_ (of_get.bind_right fun _ => of_fail _ _)
  refine of_modify (fun _ => ⟨rfl, rfl, rfl, rfl⟩) fun d tabled known => ?_
  have added : d.Grows S line { d with chunk := d.chunk.addConstant v } :=
    .of_same tabled rfl rfl rfl
  exact added.trans (.emitWide added.tabled known .constant d.chunk.constants.size)

theorem of_loads {t : Token} {x : Build Unit} (h : Loads t x) : Lines S line [] x := by
  cases h with
  | constant _ => exact of_emitConstant _
  | refusal fault => exact of_fail t fault

theorem of_literal (t : Token) : Lines S line [] (literal t) := by
  rcases literal_cases t with loads | ⟨op, same⟩
  · exact of_loads loads
  · rw [same]
    exact of_emit op

theorem of_nameConstant (t : Token) : Lines S line [] (nameConstant t) := by
  refine of_get.bind_right fun d => ?_
  split
  · exact of_pure _
  · refine of_get.bind_right fun _ => of_ite ?_ (of_fail _ _)
    refine of_get.bind_right fun _ => bind_right (of_still ?_ ?_ ?_ ?_) fun _ => of_pure _
    · exact fun _ => ⟨rfl, rfl, rfl, rfl⟩
    all_goals exact fun _ => rfl

theorem of_place (t : Token) : Lines S line [] (place t) := by
  refine of_get.bind_right fun d => ?_
  split
  · exact of_ite (of_pure _) (of_fail _ _)
  · exact (of_nameConstant t).bind_right fun _ => of_pure _

theorem of_emitGet {t : Token} (known : t.From S line) (p : Place) :
    Lines S line [] (modify (p.emitGet t) : Build Unit) := by
  cases p with
  | slot n =>
    exact of_modify (fun _ => ⟨rfl, rfl, rfl, rfl⟩) fun _ tabled _ => .emitByteAt tabled known _ n
  | global n =>
    exact of_modify (fun _ => ⟨rfl, rfl, rfl, rfl⟩) fun _ tabled _ => .emitWideAt tabled known _ n

theorem of_emitSet {t : Token} (known : t.From S line) (p : Place) :
    Lines S line [] (modify (p.emitSet t) : Build Unit) := by
  cases p with
  | slot n =>
    exact of_modify (fun _ => ⟨rfl, rfl, rfl, rfl⟩) fun _ tabled _ => .emitByteAt tabled known _ n
  | global n =>
    exact of_modify (fun _ => ⟨rfl, rfl, rfl, rfl⟩) fun _ tabled _ => .emitWideAt tabled known _ n

theorem of_emitJump (op : Opcode) : Lines S line [] (emitJump op) := by
  refine bind_right (of_modify (fun _ => ⟨rfl, rfl, rfl, rfl⟩) ?_) fun _ =>
    of_get.bind_right fun _ => of_pure _
  exact fun _ tabled known => .emitWide tabled known op 0xffff

theorem of_patchJump (pos : Nat) : Lines S line [] (patchJump pos) := by
  refine of_get.bind_right fun d => of_ite (of_get.bind_right fun _ => of_fail _ _) ?_
  refine of_still (fun _ => ⟨rfl, rfl, rfl, rfl⟩) (fun d => ?_) (fun _ => rfl) fun _ => rfl
  simp [Chunk.patchWide]

theorem of_patchAll (exits : List Nat) : Lines S line [] (patchAll exits) := by
  induction exits with
  | nil => exact of_pure ()
  | cons pos rest ih => exact (of_patchJump pos).bind_right fun _ => ih

theorem of_emitLoop (start : Nat) : Lines S line [] (emitLoop start) := by
  refine (of_emit _).bind_right fun _ => of_get.bind_right fun d =>
    of_ite (of_get.bind_right fun _ => of_fail _ _) ?_
  exact of_modify (fun _ => ⟨rfl, rfl, rfl, rfl⟩) fun _ tabled known =>
    .writeWide tabled known.fit known.le

theorem of_conjunction {body : Build Unit} (h : Lines S line ts body) :
    Lines S line ts (conjunction fun _ => body) :=
  (of_emitJump _).bind_right fun _ => (of_emit _).bind_right fun _ =>
    h.bind_left fun _ => of_patchJump _

theorem of_disjunction {body : Build Unit} (h : Lines S line ts body) :
    Lines S line ts (disjunction fun _ => body) :=
  (of_emitJump _).bind_right fun _ => (of_emitJump _).bind_right fun _ =>
    (of_patchJump _).bind_right fun _ => (of_emit _).bind_right fun _ =>
      h.bind_left fun _ => of_patchJump _

theorem of_arm {condition body : Build Unit} (first : Lines S line ts condition)
    (second : Lines S line us body) : Lines S line (ts ++ us) (arm condition body) :=
  first.bind fun _ => (of_emitJump _).bind_right fun _ => (of_emit _).bind_right fun _ =>
    second.bind_left fun _ => (of_emitJump _).bind_right fun _ =>
      (of_patchJump _).bind_right fun _ => (of_emit _).bind_right fun _ => of_pure _

theorem of_whileStatement {condition body : Build Unit} (first : Lines S line ts condition)
    (second : Lines S line us body) : Lines S line (ts ++ us) (whileStatement condition body) :=
  of_get.bind_right fun _ => first.bind fun _ => (of_emitJump _).bind_right fun _ =>
    (of_emit _).bind_right fun _ => second.bind_left fun _ => (of_emitLoop _).bind_right fun _ =>
      (of_patchJump _).bind_right fun _ => of_emit _

theorem of_ok {x y : Build α} (h : Lines S line ts y)
    (same : ∀ d a d', x.run d = .ok a d' → y.run d = .ok a d') : Lines S line ts x :=
  ⟨fun _ _ _ _ tokens more run => h.takes tokens more (same _ _ _ run),
    fun _ _ _ _ tokens more tabled known run => h.grows tokens more tabled known (same _ _ _ run)⟩

theorem of_andThen {body : Build Unit} {o : Occasion} {change : Draft → Draft}
    (h : Lines S line ts body) (done : Lines S line [] (modify change : Build Unit)) :
    Lines S line ts (andThen body o change) := by
  refine of_ok (h.bind_left fun _ => done) fun d a d' run => ?_
  rw [run_andThen] at run
  rw [EStateM.run_bind]
  cases body_run : body.run d with
  | ok _ d₁ =>
    rw [body_run] at run
    exact run
  | error e d₁ =>
    rw [body_run] at run
    cases run

theorem of_declare {value : Build Unit} (name : Token) (h : Lines S line ts value) :
    Lines S line ts (declare name value) := by
  refine of_get.bind_right fun d => of_ite ?_ (of_ite (of_fail _ _) ?_)
  · refine h.bind_left fun _ => (of_nameConstant _).bind_left fun i => ?_
    exact of_modify (fun _ => ⟨rfl, rfl, rfl, rfl⟩) fun _ tabled known => .emitWide tabled known _ i
  · split
    · exact of_fail _ _
    · next scope _ =>
      have still (f : Scope → Scope) :
          Lines S line [] (modify fun d => { d with scope := f d.scope } : Build Unit) :=
        of_still (fun _ => ⟨rfl, rfl, rfl, rfl⟩) (fun _ => rfl) (fun _ => rfl) fun _ => rfl
      exact (still fun _ => scope).bind_right fun _ => of_andThen h (still Scope.markReady)

end Lines

theorem Token.From.mono {higher : Int} {t : Token} (h : t.From S higher) (le : line ≤ higher) :
    t.From S line := ⟨h.fit, Int.le_trans le h.le⟩

namespace Starts

theorem of_advance {t : Token} (known : t.From S line) (running : t.kind ≠ .eof) :
    Starts S line [t] advance := by
  refine ⟨.of_advance running, fun d rest a d' tokens _ tabled run => ?_⟩
  cases run
  refine ⟨.advance tabled, ?_⟩
  rw [d.advance_previous, Draft.current_of_tokens tokens]
  exact known

theorem of_marked {body : Build Unit} {span : Span} (h : Starts S span.line ts body) (fit : S span)
    (le : line ≤ span.line) : Starts S line ts (marked span body) := by
  refine ⟨.of_marked span h.takes, fun d rest a d' tokens more tabled run => ?_⟩
  rw [run_marked] at run
  cases body_run : body.run d with
  | error e d₁ =>
    rw [body_run] at run
    cases run
  | ok _ d₁ =>
    rw [body_run] at run
    cases run
    obtain ⟨grown, known⟩ := h.grows tokens more tabled body_run
    exact ⟨(grown.mark fit (Int.le_refl _)).mono le, known.mono le⟩

end Starts

open Grammar Lines Starts

theorem Grammar.Expression.starts {l : Level} {ts : List Token} {e : Expr} (h : Expression l ts e)
    (known : ∀ t ∈ ts, t.From S line) : Starts S line ts e.build := by
  induction h with
  | assign target op _ ih =>
    obtain ⟨first, second, rest⟩ : _ ∧ _ ∧ _ := by simpa only [List.forall_mem_cons] using known
    exact (of_advance first (by simp [target])).bind fun _ => (of_place _).bind_right fun _ =>
      (of_advance second (by simp [op])).lines.bind fun _ => (ih rest).lines.bind_left fun _ =>
        of_emitSet first _
  | compound target op _ ih =>
    obtain ⟨first, second, rest⟩ : _ ∧ _ ∧ _ := by simpa only [List.forall_mem_cons] using known
    have running := ne_of_mem_of_not_mem op (by decide : TokenKind.eof ∉ compounds)
    exact (of_advance first (by simp [target])).bind fun _ => (of_place _).bind_right fun _ =>
      (of_advance second running).lines.bind fun _ => (of_emitGet first _).bind_right fun _ =>
        (ih rest).lines.bind_left fun _ => (of_emitFor second _).bind_right fun _ => of_emitSet first _
  | tighter _ _ ih => exact ih known
  | conditional _ mark _ colon _ ihc iha ihb =>
    simp only [List.forall_mem_cons, List.forall_mem_append] at known
    obtain ⟨c, first, a, second, b⟩ := known
    exact (ihc c).bind fun _ => (of_advance first (by simp [mark])).lines.bind fun _ =>
      (iha a).lines.bind fun _ => (of_advance second (by simp [colon])).lines.bind fun _ =>
        (ihb b).lines.bind_left fun _ => of_emitAt first _
  | or _ op _ iha ihb =>
    simp only [List.forall_mem_cons, List.forall_mem_append] at known
    obtain ⟨a, first, b⟩ := known
    exact (iha a).bind fun _ => (of_advance first (by simp [op])).lines.bind fun _ =>
      of_disjunction (ihb b).lines
  | and _ op _ iha ihb =>
    simp only [List.forall_mem_cons, List.forall_mem_append] at known
    obtain ⟨a, first, b⟩ := known
    exact (iha a).bind fun _ => (of_advance first (by simp [op])).lines.bind fun _ =>
      of_conjunction (ihb b).lines
  | binary _ op _ iha ihb =>
    simp only [List.forall_mem_cons, List.forall_mem_append] at known
    obtain ⟨a, first, b⟩ := known
    have running := ne_of_mem_of_not_mem op (eof_not_mem_operators _)
    exact (iha a).bind fun _ => (of_advance first running).lines.bind fun _ =>
      (ihb b).lines.bind_left fun _ => of_emitFor first _
  | unary op _ ih =>
    obtain ⟨first, rest⟩ := List.forall_mem_cons.1 known
    refine (of_advance first ?_).bind fun _ => (ih rest).lines.bind_left fun _ => of_emitAt first _
    rcases op with op | op
    all_goals simp [op]
  | literal kind =>
    have running := ne_of_mem_of_not_mem kind (by decide : TokenKind.eof ∉ literals)
    exact (of_advance (known _ (List.mem_singleton_self _)) running).bind_left fun _ => of_literal _
  | name kind =>
    have first := known _ (List.mem_singleton_self _)
    exact (of_advance first (by simp [kind])).bind_left fun _ => (of_place _).bind_left fun _ =>
      of_emitGet first _
  | group opening _ closing ih =>
    simp only [List.forall_mem_cons, List.forall_mem_append] at known
    obtain ⟨first, inner, last⟩ := known
    exact (of_advance first (by simp [opening])).bind fun _ => (ih inner).lines.bind fun _ =>
      (of_advance last.1 (by simp [closing])).lines

def Ordered (ts : List Token) : Prop := ts.Pairwise fun t u => t.span.line ≤ u.span.line

theorem Span.join_line (a b : Span) : (a.join b).line = a.line := by
  unfold join
  split <;> rfl

theorem Grammar.Declaration.from_span {ts : List Token} {d : Decl} (h : Declaration ts d)
    (known : ∀ t ∈ ts, t.From S line) (ordered : Ordered ts) :
    line ≤ d.span.line ∧ ∀ t ∈ ts, t.From S d.span.line := by
  obtain ⟨us, split, _⟩ := h.leading
  rw [Decl.span, Span.join_line]
  rw [split] at known ordered ⊢
  obtain ⟨first, rest⟩ := List.forall_mem_cons.1 known
  refine ⟨first.le, List.forall_mem_cons.2 ⟨⟨first.fit, Int.le_refl _⟩, fun t mem => ?_⟩⟩
  exact ⟨(rest t mem).fit, (List.pairwise_cons.1 ordered).1 t mem⟩

theorem Grammar.Declaration.fit_span {ts : List Token} {d : Decl} (h : Declaration ts d)
    (joins : ∀ a b : Span, S a → S b → S (a.join b)) (known : ∀ t ∈ ts, t.From S line) :
    S d.span := by
  obtain ⟨us, split, _⟩ := h.leading
  refine joins _ _ (known _ ?_).fit (known _ (List.mem_of_getLast? h.trailing)).fit
  rw [split]
  exact List.mem_cons_self

theorem Grammar.Declaration.marked {ts : List Token} {d : Decl} (h : Declaration ts d)
    (joins : ∀ a b : Span, S a → S b → S (a.join b)) (known : ∀ t ∈ ts, t.From S line)
    (ordered : Ordered ts)
    (body : (∀ t ∈ ts, t.From S d.span.line) → Starts S d.span.line ts d.body) :
    Starts S line ts (marked d.span d.body) := by
  obtain ⟨le, within⟩ := h.from_span known ordered
  exact of_marked (body within) (h.fit_span joins known) le

mutual

theorem Grammar.Statement.starts {S : Span → Prop} {line : Int} {ts : List Token} {s : Stmt}
    (joins : ∀ a b : Span, S a → S b → S (a.join b)) :
    Statement ts s → (∀ t ∈ ts, t.From S line) → Ordered ts → Starts S line ts s.build
  | .print word e semicolon, known, _ => by
    simp only [List.forall_mem_cons, List.forall_mem_append] at known
    obtain ⟨first, inner, last⟩ := known
    exact (of_advance first (by simp [word])).bind fun _ => (e.starts inner).lines.bind fun _ =>
      ((of_advance last.1 (by simp [semicolon])).bind_left fun _ => of_emit _).lines
  | .expression e semicolon, known, _ => by
    simp only [List.forall_mem_cons, List.forall_mem_append] at known
    obtain ⟨inner, last⟩ := known
    exact (e.starts inner).bind fun _ =>
      ((of_advance last.1 (by simp [semicolon])).bind_left fun _ => of_emit _).lines
  | .branch word c s r _, known, ordered => by
    simp only [List.forall_mem_cons, List.forall_mem_append] at known
    simp only [Ordered, List.pairwise_cons, List.pairwise_append] at ordered
    obtain ⟨first, condition, body, more⟩ := known
    obtain ⟨_, _, ⟨ordered, ordered', _⟩, _⟩ := ordered
    have arms := (of_arm (c.starts condition).lines (s.starts joins body ordered).lines).bind
      fun exit => r.lines joins [exit] more ordered'
    rw [List.append_assoc] at arms
    exact (of_advance first (by simp [word])).bind fun _ => arms
  | .loop word c s, known, ordered => by
    simp only [List.forall_mem_cons, List.forall_mem_append] at known
    simp only [Ordered, List.pairwise_cons, List.pairwise_append] at ordered
    obtain ⟨first, condition, body⟩ := known
    obtain ⟨_, _, ordered, _⟩ := ordered
    exact (of_advance first (by simp [word])).bind fun _ =>
      of_whileStatement (c.starts condition).lines (s.starts joins body ordered).lines
  | .block opening ds closing, known, ordered => by
    simp only [List.forall_mem_cons, List.forall_mem_append] at known
    simp only [Ordered, List.pairwise_cons, List.pairwise_append] at ordered
    obtain ⟨first, inner, last⟩ := known
    obtain ⟨_, ordered, _⟩ := ordered
    have enter : Lines S line [] (modify Draft.enterBlock : Build Unit) :=
      of_still Draft.enterBlock_sameReading (fun _ => rfl) (fun _ => rfl) fun _ => rfl
    have leave : Lines S line [] (modify Draft.leaveBlock : Build Unit) :=
      of_modify Draft.leaveBlock_sameReading fun _ => .leaveBlock
    exact (of_advance first (by simp [opening])).bind fun _ => enter.bind_right fun _ =>
      (ds.lines joins inner ordered).bind fun _ =>
        ((of_advance last.1 (by simp [closing])).bind_left fun _ => leave).lines

theorem Grammar.Continuation.lines {S : Span → Prop} {line : Int} {ts : List Token} {r : Rest}
    (joins : ∀ a b : Span, S a → S b → S (a.join b)) :
    Continuation ts r → ∀ exits, (∀ t ∈ ts, t.From S line) → Ordered ts →
      Lines S line ts (r.build exits)
  | .done, exits, _, _ => of_patchAll exits.reverse
  | .elif word c s r _, exits, known, ordered => by
    simp only [List.forall_mem_cons, List.forall_mem_append] at known
    simp only [Ordered, List.pairwise_cons, List.pairwise_append] at ordered
    obtain ⟨first, condition, body, more⟩ := known
    obtain ⟨_, _, ⟨ordered, ordered', _⟩, _⟩ := ordered
    have arms := (of_arm (c.starts condition).lines (s.starts joins body ordered).lines).bind
      fun exit => r.lines joins (exit :: exits) more ordered'
    rw [List.append_assoc] at arms
    exact (of_advance first (by simp [word])).lines.bind fun _ => arms
  | .otherwise word s, exits, known, ordered => by
    obtain ⟨first, body⟩ := List.forall_mem_cons.1 known
    have ordered' := (List.pairwise_cons.1 ordered).2
    exact (of_advance first (by simp [word])).lines.bind fun _ =>
      (s.starts joins body ordered').lines.bind_left fun _ => of_patchAll _

theorem Grammar.Declaration.starts {S : Span → Prop} {line : Int} {ts : List Token} {d : Decl}
    (joins : ∀ a b : Span, S a → S b → S (a.join b)) :
    Declaration ts d → (∀ t ∈ ts, t.From S line) → Ordered ts → Starts S line ts d.body
  | .bind word name semicolon, known, _ => by
    simp only [List.forall_mem_cons] at known
    obtain ⟨first, second, last, _⟩ := known
    exact (of_advance first (by simp [word])).bind fun _ =>
      (of_advance second (by simp [name])).lines.bind fun _ =>
        of_declare _ ((of_emit _).bind_right fun _ => (of_advance last (by simp [semicolon])).lines)
  | .bindTo word name equals e semicolon, known, _ => by
    simp only [List.forall_mem_cons, List.forall_mem_append] at known
    obtain ⟨first, second, third, inner, last, _⟩ := known
    exact (of_advance first (by simp [word])).bind fun _ =>
      (of_advance second (by simp [name])).lines.bind fun _ =>
        of_declare _ ((of_advance third (by simp [equals])).lines.bind fun _ =>
          (e.starts inner).lines.bind fun _ => (of_advance last (by simp [semicolon])).lines)
  | .statement s, known, ordered => s.starts joins known ordered

theorem Grammar.Program.lines {S : Span → Prop} {line : Int} {ts : List Token} {ds : List Decl}
    (joins : ∀ a b : Span, S a → S b → S (a.join b)) :
    Program ts ds → (∀ t ∈ ts, t.From S line) → Ordered ts → Lines S line ts (buildAll ds)
  | .nil, _, _ => of_pure ()
  | .cons d ds, known, ordered => by
    obtain ⟨first, rest⟩ := List.forall_mem_append.1 known
    obtain ⟨ordered, ordered', _⟩ := List.pairwise_append.1 ordered
    have marked := d.marked joins first ordered fun within => d.starts joins within ordered
    exact marked.lines.bind fun _ => ds.lines joins rest ordered'

end

end StackScript
