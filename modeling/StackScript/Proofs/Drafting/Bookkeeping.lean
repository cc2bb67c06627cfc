import StackScript.Proofs.Drafting.Emission
import StackScript.Proofs.Drafting.Ledger
import StackScript.Proofs.FaultOrder

/-! Compilations keep a chronicle. Every action of the parsers is one of those that a chronicle
allows, wherever the tokens lead and whatever fails. What a part relies on, an open jump or a
variable that was read, is said of the moments so far, and more moments do not change it. -/

namespace StackScript

open Build

def Draft.EndsDefining (d : Draft) (t : Token) : Prop :=
  ∃ n, d.names[t.lexeme]? = some n ∧ 3 ≤ d.chunk.code.size ∧
    Instruction.decode d.chunk.code (d.chunk.code.size - 3) = .ok ⟨.defGlobal, n⟩

/-- A `let` of the outermost level that is not given up ends with the definition of its own name. -/
def DeclarationCall.Defines (c : DeclarationCall) : Prop :=
  c.before.current.kind = .kwLet → c.before.scope.depth = 0 → c.after.faults = c.before.faults →
    ∃ t, c.before.upcoming.head? = some t ∧ t.kind = .identifier ∧ c.after.EndsDefining t

def Occasion.Inner : Occasion → Prop
  | .ended _ _ => False
  | _ => True

namespace History

structure Kept (h : History) : Prop where
  chronicle : Chronicle h.moments
  calls : ∀ c ∈ h.calls, c.Defines

structure Onward (h h' : History) : Prop where
  kept : h'.Kept
  moments : h.moments <:+ h'.moments

def Quiet (h : History) : Prop := h.now.draft.recovering = false

/-- How a part ends. One that is given up has recorded a fault. -/
def Ends {α : Type} (h : History) (post : α → History → Prop) :
    EStateM.Result GivenUp History α → Prop
  | .ok a h' => h.Onward h' ∧ h'.Quiet ∧ post a h'
  | .error _ h' => h.Onward h' ∧ h.now.draft.faults.length < h'.now.draft.faults.length

variable {h h' h'' : History}

theorem Onward.trans (onward : h.Onward h') (onward' : h'.Onward h'') : h.Onward h'' :=
  ⟨onward'.kept, onward.moments.trans onward'.moments⟩

theorem Onward.refl (kept : h.Kept) : h.Onward h := ⟨kept, List.suffix_rfl⟩

theorem Onward.before (onward : h.Onward h') : h.now.draft.Before h'.now.draft :=
  onward.kept.chronicle.before _ (onward.moments.subset List.mem_cons_self)

theorem Kept.see (kept : h.Kept) {m : Moment} (turn : h.now.draft.Turn h.moments m.draft) :
    h.Onward (h.see m) :=
  ⟨⟨.next kept.chronicle turn, kept.calls⟩, List.suffix_cons _ _⟩

theorem now_become (o : Occasion) (change : Draft → Draft) (h : History) :
    (become o change h).now.draft = change h.now.draft := draft_become o change h

theorem Kept.become (kept : h.Kept) {o : Occasion}
    (inner : o.Inner) {change : Draft → Draft}
    (turn : h.now.draft.Turn h.moments (change h.now.draft)) : h.Onward (become o change h) := by
  cases o with
  | action | declared _ | ready => exact kept.see turn
  | ended _ _ => exact inner.elim

end History

open History

/-- What is known to hold from a history on whenever a part of the parsers ends well. -/
def Runs {α : Type} (h : History) (y : Recorded α) (post : α → History → Prop) : Prop :=
  h.Quiet → h.Ends post (y.run h)

def Arrives {α : Type} (base : History) (y : Recorded α) (post : α → History → Prop) : Prop :=
  ∀ ⦃h : History⦄, base.Onward h → Runs h y post

def CarriesOn {α : Type} (base : History) (y : Recorded α) : Prop := Arrives base y fun _ _ => True

section

variable {α β : Type} {base h h' : History} {x : Build α} {y : Recorded α} {g : α → Recorded β}
  {post : α → History → Prop} {post' : β → History → Prop}

theorem Runs.bind (first : Runs h y post)
    (second : ∀ a h', h.Onward h' → post a h' → Runs h' (g a) post') : Runs h (y >>= g) post' := by
  intro quiet
  have begun := first quiet
  rw [EStateM.run_bind]
  cases run : y.run h with
  | error e h₁ =>
    rw [run] at begun
    exact begun
  | ok a h₁ =>
    rw [run] at begun
    obtain ⟨onward, quiet₁, known⟩ := begun
    have rest := second a h₁ onward known quiet₁
    dsimp only
    cases run' : (g a).run h₁ with
    | error e h₂ =>
      rw [run'] at rest
      exact ⟨onward.trans rest.1, Nat.lt_of_le_of_lt onward.before.faults.length_le rest.2⟩
    | ok b h₂ =>
      rw [run'] at rest
      exact ⟨onward.trans rest.1, rest.2⟩

theorem Runs.imp {post₁ : α → History → Prop} (runs : Runs h y post)
    (weaker : ∀ a h', h.Onward h' → post a h' → post₁ a h') : Runs h y post₁ := by
  intro quiet
  have ends := runs quiet
  cases run : y.run h with
  | error e h₁ =>
    rw [run] at ends
    exact ends
  | ok a h₁ =>
    rw [run] at ends
    exact ⟨ends.1, ends.2.1, weaker a h₁ ends.1 ends.2.2⟩

namespace Arrives

theorem mono (arrives : Arrives base y post) (onward : base.Onward h) : Arrives h y post :=
  fun _ onward' => arrives (onward.trans onward')

theorem bind (first : Arrives base y post)
    (second : ∀ a h, base.Onward h → post a h → Arrives h (g a) post') :
    Arrives base (y >>= g) post' := fun _ onward =>
  (first onward).bind fun a h' onward' known =>
    second a h' (onward.trans onward') known (.refl onward'.kept)

theorem seq (first : Arrives base y post) (second : ∀ a, Arrives base (g a) post') :
    Arrives base (y >>= g) post' :=
  first.bind fun a _ onward _ => (second a).mono onward

theorem of_known {a : α} (known : ∀ h, base.Onward h → post a h) : Arrives base (pure a) post :=
  fun h onward quiet => ⟨.refl onward.kept, quiet, known h onward⟩

theorem of_pure (a : α) : CarriesOn base (pure a) := of_known fun _ _ => trivial

end Arrives

end

/-- The constant that a variable is reached through has been that of its name at some moment. -/
def Located (past : List Moment) (t : Token) (p : Place) : Prop :=
  ∀ n, p = .global n → ∃ m ∈ past, m.draft.names[t.lexeme]? = some n

/-- What a single action does where no fault is being recovered from. -/
def Acts {α : Type} (h : History) (x : Build α) (post : α → History → Prop) : Prop :=
  h.Quiet →
    match x.run h.now.draft with
    | .ok a d => h.now.draft.Turn h.moments d ∧ d.recovering = false ∧
        post a (h.see { h.now with draft := d })
    | .error _ d => h.now.draft.Turn h.moments d ∧ h.now.draft.faults.length < d.faults.length

theorem Draft.Turn.of_quiet {d d' : Draft} {past : List Moment} (quiet : d.recovering = false)
    (writes : d.Writes past d') (faults : d.faults <:+ d'.faults) : d.Turn past d' :=
  ⟨writes, faults, fun loud => nomatch quiet.symm.trans loud⟩

/-- The locals of a block leave the stack without touching constants or faults. -/
theorem Draft.emitPops_writes (n : Nat) (d : Draft) :
    (emitPops n d).chunk.code.toList = d.chunk.code.toList ++ List.replicate n Opcode.pop.toByte ∧
      (emitPops n d).chunk.constants = d.chunk.constants ∧ (emitPops n d).names = d.names := by
  induction n generalizing d with
  | zero => exact ⟨(List.append_nil _).symm, rfl, rfl⟩
  | succ n ih =>
    obtain ⟨code, constants, names⟩ := ih (d.emit .pop)
    refine ⟨?_, constants, names⟩
    have one : (d.emit .pop).chunk.code.toList = d.chunk.code.toList ++ [Opcode.pop.toByte] :=
      Array.toList_push
    rw [emitPops, code, one, List.append_assoc]
    rfl

/-- What is done at the end of a block or of a local variable, however that ends. -/
structure Settles (change : Draft → Draft) : Prop where
  turn : ∀ (past : List Moment) (d : Draft), d.Turn past (change d)
  faults : ∀ d, (change d).faults = d.faults
  recovering : ∀ d, (change d).recovering = d.recovering

theorem Settles.leaveBlock : Settles Draft.leaveBlock where
  turn past d := by
    obtain ⟨code, constants, names⟩ := Draft.emitPops_writes d.scope.owned
      { d with scope := d.scope.leave }
    have faults := (Draft.emitPops_faults d.scope.owned { d with scope := d.scope.leave }).1
    exact ⟨.plain code constants names (.pops _), faults ▸ List.suffix_rfl, fun _ => .inl rfl⟩
  faults _ := (Draft.emitPops_faults _ _).1
  recovering _ := (Draft.emitPops_faults _ _).2

theorem Settles.markReady : Settles fun d => { d with scope := d.scope.markReady } where
  turn _ _ := ⟨.nothing rfl rfl, List.suffix_rfl, fun _ => .inr (.inr rfl)⟩
  faults _ := rfl
  recovering _ := rfl

theorem Draft.EndsDefining.of_emitWide {d : Draft} {t : Token} {n : Nat} (pooled : d.Pooled)
    (known : d.names[t.lexeme]? = some n) : (d.emitWide .defGlobal n).EndsDefining t := by
  have small := (List.getElem?_eq_some_iff.1 ((pooled.names _ _).1 known)).1
  have code := code_writeWide (d := d) .defGlobal n d.line d.line
  have size := size_emitWide d .defGlobal n
  have byte (i : Nat) : (d.emitWide .defGlobal n).chunk.code[d.chunk.code.size + i]? =
      [Opcode.defGlobal.toByte, Chunk.highByte n, Chunk.lowByte n][i]? := getElem?_appended code i
  refine ⟨n, known, by omega, ?_⟩
  rw [size, Nat.add_sub_cancel]
  have fits := Nat.lt_of_lt_of_le small pooled.room
  exact Instruction.decode_wide rfl fits (byte 0) (byte 1) (byte 2)

theorem Draft.head?_upcoming {d : Draft} (begins : d.current.kind = .kwLet)
    (name : d.advance.current.kind = .identifier) :
    d.upcoming.head? = some d.advance.current := by
  have running : ¬ d.current.kind = .eof := by simp [begins]
  cases upcoming : d.upcoming with
  | nil =>
    have stays : d.advance.current = d.current := by simp [advance, running, upcoming]
    cases begins.symm.trans (stays ▸ name)
  | cons t rest => simp [advance, running, upcoming]

namespace Acts

variable {α : Type} {h : History} {x : Build α} {post : α → History → Prop} {a : α} {d : Draft}

theorem runs (kept : h.Kept) (acts : Acts h x post) : Runs h (Carrier.act x) post := by
  intro quiet
  have ends := acts quiet
  rw [Recorded.run_act]
  cases run : x.run h.now.draft with
  | ok a d =>
    rw [run] at ends
    exact ⟨kept.see ends.1, ends.2.1, ends.2.2⟩
  | error e d =>
    rw [run] at ends
    exact ⟨kept.see ends.1, ends.2⟩

theorem imp {post' : α → History → Prop} (acts : Acts h x post)
    (weaker : ∀ a h', post a h' → post' a h') : Acts h x post' := by
  intro quiet
  have ends := acts quiet
  cases run : x.run h.now.draft with
  | ok a d =>
    rw [run] at ends
    exact ⟨ends.1, ends.2.1, weaker _ _ ends.2.2⟩
  | error e d =>
    rw [run] at ends
    exact ends

theorem of_ok (run : x.run h.now.draft = .ok a d) (writes : h.now.draft.Writes h.moments d)
    (faults : d.faults = h.now.draft.faults) (recovering : d.recovering = h.now.draft.recovering)
    (known : post a (h.see { h.now with draft := d })) : Acts h x post := by
  intro quiet
  rw [run]
  exact ⟨.of_quiet quiet writes (faults ▸ List.suffix_rfl), recovering.trans quiet, known⟩

theorem of_report {t : Token} {fault : SyntaxFault}
    (run : x.run h.now.draft = .error .mk (d.report t fault))
    (writes : h.now.draft.Writes h.moments (d.report t fault))
    (faults : d.faults = h.now.draft.faults) (recovering : d.recovering = h.now.draft.recovering) : Acts h x post := by
  intro quiet
  have recorded :
      (d.report t fault).faults = .atSpan t.span fault.message :: h.now.draft.faults := by
    rw [Draft.report_of_quiet (recovering.trans quiet), ← faults]
  rw [run]
  refine ⟨.of_quiet quiet writes ?_, ?_⟩
  · rw [recorded]
    exact List.suffix_cons _ _
  · rw [recorded]
    exact Nat.lt_succ_self _

theorem of_same (run : x.run h.now.draft = .ok a h.now.draft)
    (known : post a (h.see { h.now with draft := h.now.draft })) : Acts h x post :=
  of_ok run (.nothing rfl rfl) rfl rfl known

theorem of_refusal {t : Token} {fault : SyntaxFault}
    (run : x.run h.now.draft = .error .mk (h.now.draft.report t fault)) : Acts h x post :=
  of_report run (.nothing (Draft.report_chunk _ t fault) (Draft.report_names _ t fault)) rfl rfl

theorem of_advance (run : x.run h.now.draft = .ok a h.now.draft.advance)
    (known : post a (h.see { h.now with draft := h.now.draft.advance })) : Acts h x post :=
  have quiet := h.now.draft.advance_faults
  of_ok run (.nothing (Draft.advance_chunk _) (Draft.advance_names _)) quiet.1 quiet.2 known

theorem take (kind : TokenKind) : Acts h (take kind) fun more h' =>
    if more then h.now.draft.current.kind = kind ∧ h'.now.draft = h.now.draft.advance
    else h.now.draft.current.kind ≠ kind := by
  have run := run_take kind h.now.draft
  split at run
  · next found => exact of_advance run ⟨found, rfl⟩
  · next other => exact of_same run other

theorem expect (kind : TokenKind) (fault : SyntaxFault) : Acts h (expect kind fault) fun _ h' =>
    h.now.draft.current.kind = kind ∧ h'.now.draft = h.now.draft.advance ∧
      h'.moments = h'.now :: h.moments := by
  have run := run_expect kind fault h.now.draft
  split at run
  · next found => exact of_advance run ⟨found, rfl, rfl⟩
  · exact of_refusal run

theorem nameConstant (t : Token) :
    Acts h (nameConstant t) fun n h' => h'.now.draft.names[t.lexeme]? = some n := by
  have run := run_nameConstant t h.now.draft
  cases found : h.now.draft.names[t.lexeme]? with
  | some n =>
    rw [found] at run
    exact of_same run found
  | none =>
    rw [found] at run
    dsimp only at run
    split at run
    · next room => exact of_ok run (.name found room rfl rfl) rfl rfl (by simp [History.see])
    · exact of_refusal run

theorem place (t : Token) : Acts h (place t) fun p h' =>
    ∀ n, p = .global n → h'.now.draft.names[t.lexeme]? = some n := by
  have run := run_place t h.now.draft
  cases found : h.now.draft.scope.resolve? t.lexeme with
  | some l =>
    obtain ⟨slot, l⟩ := l
    rw [found] at run
    dsimp only at run
    split at run
    · exact of_same run nofun
    · exact of_refusal run
  | none =>
    rw [found] at run
    intro quiet
    have named := nameConstant (h := h) t quiet
    rw [run]
    cases run' : (Build.nameConstant t).run h.now.draft with
    | ok n d =>
      rw [run'] at named
      refine ⟨named.1, named.2.1, ?_⟩
      rintro _ ⟨⟩
      exact named.2.2
    | error e d =>
      rw [run'] at named
      exact named

theorem emitConstant {v : Value} (value : ∀ x, v ≠ .name x) :
    Acts h (emitConstant v) fun _ _ => True := by
  have run := run_emitConstant v h.now.draft
  split at run
  · next room => exact of_ok run (.constant value room rfl rfl) rfl rfl trivial
  · exact of_refusal run

theorem of_one {op : Opcode} {operand : List UInt8} (run : x.run h.now.draft = .ok a d)
    (code : d.chunk.code.toList = h.now.draft.chunk.code.toList ++ op.toByte :: operand)
    (plain : op.addresses = false) (short : operand.length ≤ op.operandWidth)
    (same : d = { h.now.draft with chunk := d.chunk, spans := d.spans })
    (constants : d.chunk.constants = h.now.draft.chunk.constants)
    (known : post a (h.see { h.now with draft := d })) : Acts h x post :=
  of_ok run (.plain code constants (same ▸ rfl) (.one plain short)) (same ▸ rfl) (same ▸ rfl) known

end Acts

namespace Arrives

variable {α : Type} {base : History} {x : Build α} {post : α → History → Prop}

theorem act (each : ∀ h, base.Onward h → Acts h x post) : Arrives base (Carrier.act x) post :=
  fun h onward => (each h onward).runs onward.kept

theorem get : CarriesOn base (Carrier.act get) := act fun _ _ => .of_same rfl trivial

theorem current : CarriesOn base (Carrier.act current) := act fun _ _ => .of_same rfl trivial

theorem previous : Arrives base (Carrier.act previous) fun t h => h.now.draft.previous = t :=
  act fun _ _ => .of_same rfl rfl

theorem advance : CarriesOn base (Carrier.act advance) :=
  act fun _ _ => .of_advance (run_advance _) trivial

theorem enterBlock : CarriesOn base (Carrier.act (modify Draft.enterBlock)) :=
  act fun _ _ => .of_ok rfl (.nothing rfl rfl) rfl rfl trivial

theorem fail (t : Token) (fault : SyntaxFault) :
    Arrives base (Carrier.act (fail t fault : Build α)) post :=
  act fun _ _ => .of_refusal (run_fail t fault _)

theorem take (kind : TokenKind) : CarriesOn base (Carrier.act (take kind)) :=
  act fun _ _ => (Acts.take kind).imp fun _ _ _ => trivial

theorem expect (kind : TokenKind) (fault : SyntaxFault) :
    CarriesOn base (Carrier.act (expect kind fault)) :=
  act fun _ _ => (Acts.expect kind fault).imp fun _ _ _ => trivial

theorem emit {op : Opcode} (plain : op.operandWidth = 0) : CarriesOn base (Carrier.act (emit op)) :=
  act fun _ _ => .of_one rfl Array.toList_push (Opcode.addresses_eq_false plain)
    (Nat.zero_le _) rfl rfl trivial

theorem emitAt {op : Opcode} (plain : op.operandWidth = 0) (t : Token) :
    CarriesOn base (Carrier.act (modify (·.emitAt op t))) :=
  act fun _ _ => .of_one rfl Array.toList_push (Opcode.addresses_eq_false plain)
    (Nat.zero_le _) rfl rfl trivial

theorem emitConstant {v : Value} (value : ∀ x, v ≠ .name x) :
    CarriesOn base (Carrier.act (emitConstant v)) := act fun _ _ => .emitConstant value

theorem of_loads {t : Token} {x : Build Unit} (h : Loads t x) : CarriesOn base (Carrier.act x) := by
  cases h with
  | constant plain => exact emitConstant plain
  | refusal fault => exact fail t fault

theorem place (t : Token) :
    Arrives base (Carrier.act (place t)) fun p h => Located h.moments t p :=
  act fun _ _ => (Acts.place t).imp fun _ h' known n global =>
    ⟨h'.now, List.mem_cons_self, known n global⟩

theorem emitWideAt {op : Opcode} {t : Token} {n : Nat} (uses : op = .getGlobal ∨ op = .setGlobal)
    (read : Read base.moments t) (located : Located base.moments t (.global n)) :
    CarriesOn base (Carrier.act (modify (·.emitWideAt op n t))) := by
  refine act fun h onward => ?_
  obtain ⟨m, mem, known⟩ := located n rfl
  have still := (onward.kept.chronicle.named (onward.moments.subset mem) known).1
  exact .of_ok rfl (.use uses (read.mono onward.moments) still rfl) rfl rfl trivial

theorem emitByteAt {op : Opcode} {t : Token} {n : Nat} (narrow : op.operandWidth = 1)
    (plain : op.addresses = false) :
    CarriesOn base (Carrier.act (modify (·.emitByteAt op n t))) :=
  act fun _ _ => .of_one rfl (Draft.code_emitByteAt _ _ _ _) plain (Nat.le_of_eq narrow.symm) rfl rfl
    trivial

theorem emitGet {t : Token} {p : Place} (read : Read base.moments t)
    (located : Located base.moments t p) : CarriesOn base (Carrier.act (modify (p.emitGet t))) := by
  cases p with
  | slot n => exact emitByteAt rfl rfl
  | global n => exact emitWideAt (.inl rfl) read located

theorem emitSet {t : Token} {p : Place} (read : Read base.moments t)
    (located : Located base.moments t p) : CarriesOn base (Carrier.act (modify (p.emitSet t))) := by
  cases p with
  | slot n => exact emitByteAt rfl rfl
  | global n => exact emitWideAt (.inr rfl) read located

theorem emitJump {op : Opcode} (jump : op = .jump ∨ op = .jumpFalse) :
    Arrives base (Carrier.act (emitJump op)) fun pos h => OpenAt h.moments pos := by
  have plain : op.addresses = false := by rcases jump with rfl | rfl <;> rfl
  have wide : op.operandWidth = 2 := by rcases jump with rfl | rfl <;> rfl
  refine act fun h _ => .of_one (run_emitJump op _) (Draft.code_writeWide _ _ _ _) plain
    (Nat.le_of_eq wide.symm) rfl rfl ⟨h.now, _, op, .here, jump, rfl, ?_⟩
  rw [Draft.emitOpenJump, Draft.size_emitWide]
  rfl

theorem patchJump {pos : Nat} (opened : OpenAt base.moments pos) :
    CarriesOn base (Carrier.act (patchJump pos)) := by
  refine act fun h onward => ?_
  have run := run_patchJump pos h.now.draft
  split at run
  · exact .of_refusal run
  · exact .of_ok run (.patch (opened.mono onward.moments) rfl rfl) rfl rfl trivial

theorem emitLoop (start : Nat) : CarriesOn base (Carrier.act (emitLoop start)) := by
  refine act fun h _ => ?_
  have run := run_emitLoop start h.now.draft
  split at run
  · have cut : Plain [Opcode.loop.toByte] := .one rfl (Nat.zero_le _)
    refine .of_report run (.plain ?_ ?_ (Draft.report_names _ _ _) cut) rfl rfl
    · rw [Draft.report_chunk]
      exact Array.toList_push
    · rw [Draft.report_chunk]
      rfl
  · exact .of_one run (Draft.code_writeWide .loop _ _ _) rfl (Nat.le_refl 2) rfl rfl trivial

theorem refusal {fault : SyntaxFault} : Arrives base
    (do Carrier.act (Build.fail (← Carrier.act Build.current) fault) : Recorded α) post :=
  current.seq fun t => fail t fault

theorem outside : Arrives base (Build.outside : Recorded α) post :=
  fun h onward => fail h.now.draft.current .tooDeep onward

section

variable {self : Level → Recorded Unit} (nested : ∀ level base, CarriesOn base (self level))

include nested

theorem variableUse (assignable : Bool) {t : Token} (read : Read base.moments t) :
    CarriesOn base (Build.variableUse self assignable t) := by
  refine (place t).bind fun p h onward located => ?_
  have read := read.mono onward.moments
  refine current.seq fun op => ?_
  split
  · exact advance.seq fun _ => (nested _ _).seq fun _ => emitSet read located
  · cases found : if assignable then Opcode.ofCompound? op.kind else none with
    | some arithmetic =>
      have plain : arithmetic.operandWidth = 0 := by
        split at found
        · exact Opcode.operandWidth_ofCompound op.kind arithmetic found
        · cases found
      exact advance.seq fun _ => (emitGet read located).seq fun _ => (nested _ _).seq fun _ =>
        (emitAt plain op).seq fun _ => emitSet read located
    | none => exact emitGet read located

theorem grouping (opening : Token) : CarriesOn base (Build.grouping self opening) := by
  refine (nested _ _).seq fun _ => current.seq fun t => ?_
  split
  · exact advance
  · exact fail opening _

theorem operand (assignable : Bool) : CarriesOn base (Build.operand self assignable) := by
  refine previous.bind fun t h _ last => ?_
  split
  · exact grouping nested t
  · exact (nested _ _).seq fun _ => emitAt rfl t
  · exact (nested _ _).seq fun _ => emitAt rfl t
  · next kind => exact variableUse nested assignable ⟨kind, h.now, List.mem_cons_self, last⟩
  · exact of_loads (stringLiteral_loads t)
  · exact of_loads (integerLiteral_loads t)
  · exact of_loads (floatLiteral_loads t)
  · exact emit rfl
  · exact emit rfl
  · exact emit rfl
  · exact fail t _

theorem conditional (t : Token) : CarriesOn base (Build.conditional self t) :=
  (nested _ _).seq fun _ => (expect _ _).seq fun _ => (nested _ _).seq fun _ => emitAt rfl t

theorem conjunction : CarriesOn base (Build.conjunction self) :=
  (emitJump (.inr rfl)).bind fun _ _ _ opened => (emit rfl).seq fun _ => (nested _ _).seq fun _ =>
    patchJump opened

theorem disjunction : CarriesOn base (Build.disjunction self) :=
  (emitJump (.inr rfl)).bind fun _ _ _ opened => (emitJump (.inl rfl)).bind fun _ _ onward opened' =>
    (patchJump (opened.mono onward.moments)).seq fun _ => (emit rfl).seq fun _ =>
    (nested _ _).seq fun _ => patchJump opened'

theorem operation : CarriesOn base (Build.operation self) := by
  refine previous.seq fun t => ?_
  split
  · exact conditional nested t
  · exact conjunction nested
  · exact disjunction nested
  · cases found : Opcode.ofBinary? t.kind with
    | some op =>
      exact (nested _ _).seq fun _ => emitAt (Opcode.operandWidth_ofBinary t.kind op found) t
    | none => exact outside

theorem operations (level : Level) (fuel : Nat) :
    CarriesOn base (Build.operations self level fuel) := by
  induction fuel generalizing base with
  | zero => exact outside
  | succ fuel ih =>
    refine current.seq fun t => ?_
    split
    · exact advance.seq fun _ => (operation nested).seq fun _ => ih
    · exact of_pure ()

end

theorem expression (fuel : Nat) (level : Level) :
    CarriesOn base (Build.expression fuel level) := by
  induction fuel generalizing base level with
  | zero => exact outside
  | succ fuel ih =>
    have nested (level : Level) (base : History) := @ih base level
    refine advance.seq fun _ => (operand nested _).seq fun _ =>
      (operations nested level _).seq fun _ => current.seq fun t => ?_
    split
    · exact refusal
    · exact of_pure ()

theorem patchAll {exits : List Nat} (opened : ∀ pos ∈ exits, OpenAt base.moments pos) :
    CarriesOn base (Build.patchAll exits) := by
  induction exits with
  | nil => exact of_pure ()
  | cons pos exits ih =>
    obtain ⟨first, rest⟩ := List.forall_mem_cons.1 opened
    exact (patchJump first).seq fun _ => ih rest

section

variable {expr stmt : Recorded Unit} (value : ∀ base, CarriesOn base expr)

include value

theorem printStatement : CarriesOn base (Build.printStatement expr) :=
  (value _).seq fun _ => (expect _ _).seq fun _ => emit rfl

theorem expressionStatement : CarriesOn base (Build.expressionStatement expr) :=
  (value _).seq fun _ => (expect _ _).seq fun _ => emit rfl

theorem initializer : CarriesOn base (Build.initializer expr) := by
  refine (take _).seq fun more => ?_
  cases more
  · exact (emit rfl).seq fun _ => expect _ _
  · exact (value _).seq fun _ => expect _ _

variable (body : ∀ base, CarriesOn base stmt)

include body

theorem arm : Arrives base (Build.arm expr stmt) fun exit h => OpenAt h.moments exit :=
  (value _).seq fun _ => (emitJump (.inr rfl)).bind fun _ _ _ skipped =>
    (emit rfl).seq fun _ => (body _).seq fun _ =>
    (emitJump (.inl rfl)).bind fun _ _ onward exiting =>
    (patchJump (skipped.mono onward.moments)).seq fun _ => (emit rfl).seq fun _ =>
    of_known fun _ onward' => exiting.mono onward'.moments

theorem arms (fuel : Nat) {exits : List Nat} (opened : ∀ pos ∈ exits, OpenAt base.moments pos) :
    Arrives base (Build.arms expr stmt fuel exits) fun exits h =>
      ∀ pos ∈ exits, OpenAt h.moments pos := by
  induction fuel generalizing base exits with
  | zero => exact outside
  | succ fuel ih =>
    refine (arm value body).bind fun exit h onward exiting => (take _).seq fun more => ?_
    have all : ∀ pos ∈ exit :: exits, OpenAt h.moments pos :=
      List.forall_mem_cons.2 ⟨exiting, fun pos mem => (opened pos mem).mono onward.moments⟩
    cases more
    · exact of_known fun _ onward' pos mem => (all pos mem).mono onward'.moments
    · exact ih all

theorem ifStatement (fuel : Nat) : CarriesOn base (Build.ifStatement expr stmt fuel) := by
  refine (arms value body fuel (List.forall_mem_nil _)).bind fun exits h _ opened =>
    (take _).seq fun more => ?_
  have patches : CarriesOn h (Build.patchAll exits.reverse) :=
    patchAll fun pos mem => opened pos (List.mem_reverse.1 mem)
  cases more
  · exact (of_pure ()).seq fun _ => patches
  · exact (body _).seq fun _ => patches

theorem whileStatement : CarriesOn base (Build.whileStatement expr stmt) :=
  get.seq fun _ => (value _).seq fun _ => (emitJump (.inr rfl)).bind fun _ _ _ opened =>
    (emit rfl).seq fun _ => (body _).seq fun _ => (emitLoop _).seq fun _ =>
    (patchJump opened).seq fun _ => emit rfl

end

/-- A change of the draft that is not seen in its code, its constants or its faults. -/
theorem become {name : Text} {change : Draft → Draft}
    (still : ∀ d, (change d).chunk = d.chunk ∧ (change d).names = d.names ∧
      (change d).faults = d.faults ∧ (change d).recovering = d.recovering) :
    CarriesOn base (modify (Build.become (.declared name) change) : Recorded Unit) := by
  intro h onward quiet
  obtain ⟨chunk, names, faults, recovering⟩ := still h.now.draft
  exact ⟨onward.kept.see (.of_quiet quiet (.nothing chunk names) (faults ▸ List.suffix_rfl)),
    recovering.trans quiet, trivial⟩

theorem andThen {body : Recorded Unit} (carriesOn : CarriesOn base body) {o : Occasion}
    (inner : o.Inner) {change : Draft → Draft} (settles : Settles change) :
    CarriesOn base (Build.andThen body o change) := by
  intro h onward quiet
  have ends := carriesOn onward quiet
  rw [run_andThen]
  cases run : body.run h with
  | ok a h' =>
    rw [run] at ends
    obtain ⟨onward', quiet', -⟩ := ends
    refine ⟨onward'.trans (onward'.kept.become inner (settles.turn _ _)), ?_, trivial⟩
    rw [History.Quiet, now_become]
    exact (settles.recovering _).trans quiet'
  | error e h' =>
    rw [run] at ends
    obtain ⟨onward', more⟩ := ends
    refine ⟨onward'.trans (onward'.kept.become inner (settles.turn _ _)), ?_⟩
    rw [now_become, settles.faults]
    exact more

section

variable {expr stmt : Recorded Unit} (value : ∀ base, CarriesOn base expr) {h : History}

include value

theorem letDeclaration (kept : h.Kept) (begun : h.now.draft.previous.kind = .kwLet) :
    Runs h (Build.letDeclaration expr) fun _ h' => h.now.draft.scope.depth = 0 →
      h.now.draft.current.kind = .identifier ∧ h'.now.draft.EndsDefining h.now.draft.current := by
  refine (Acts.runs kept (.expect .identifier .expectedName)).bind ?_
  rintro _ h₁ onward₁ ⟨kind, now, moments⟩
  have read : Runs h₁ (Carrier.act Build.previous) fun t h' =>
      t = h.now.draft.current ∧ h'.now.draft = h₁.now.draft :=
    Acts.runs onward₁.kept (.of_same rfl ⟨by rw [now, Draft.advance_previous], rfl⟩)
  refine read.bind ?_
  rintro _ h₂ onward₂ ⟨rfl, now₂⟩
  have looked : Runs h₂ (Carrier.act MonadState.get) fun d h' => d = h₂.now.draft :=
    Acts.runs onward₂.kept (.of_same rfl rfl)
  refine looked.bind ?_
  rintro _ h₃ onward₃ rfl
  have named : ReadBehindLet h₃.moments h.now.draft.current := by
    refine ReadBehindLet.mono ⟨kind, h.now, h₁.now, ?_, begun, ?_⟩ (onward₂.trans onward₃).moments
    · rw [moments]
      exact .here
    · rw [now, Draft.advance_previous]
  have depth : h₂.now.draft.scope.depth = h.now.draft.scope.depth := by
    rw [now₂, now, Draft.advance_scope]
  dsimp only
  split
  · refine (initializer value (.refl onward₃.kept)).bind fun _ h₄ onward₄ _ =>
      (Acts.runs onward₄.kept (.nameConstant _)).bind fun n h₅ onward₅ known => ?_
    have pooled := onward₅.kept.chronicle.pooled _ List.mem_cons_self
    have still := named.mono (onward₄.trans onward₅).moments
    refine Acts.runs onward₅.kept (.of_ok rfl (.define still known rfl) rfl rfl ?_)
    exact fun _ => ⟨kind, .of_emitWide pooled known⟩
  · next inner =>
    have vacuous {y : Recorded Unit} (carriesOn : CarriesOn h₃ y) : Runs h₃ y fun _ h' =>
        h.now.draft.scope.depth = 0 → h.now.draft.current.kind = .identifier ∧
          h'.now.draft.EndsDefining h.now.draft.current :=
      (carriesOn (.refl onward₃.kept)).imp fun _ _ _ _ outer => absurd (depth.trans outer) inner
    split
    · exact vacuous (fail _ _)
    · split
      · exact vacuous (fail _ _)
      · refine vacuous ((become ?_).seq fun _ =>
          andThen (o := .ready) (initializer value) trivial .markReady)
        exact fun _ => ⟨rfl, rfl, rfl, rfl⟩

variable (body : ∀ base, CarriesOn base stmt)

include body

theorem declarationBody (kept : h.Kept) :
    Runs h (do if ← Carrier.act (Build.take .kwLet) then Build.letDeclaration expr else stmt)
      fun _ h' => h.now.draft.current.kind = .kwLet → h.now.draft.scope.depth = 0 →
        ∃ t, h.now.draft.upcoming.head? = some t ∧ t.kind = .identifier ∧
          h'.now.draft.EndsDefining t := by
  refine (Acts.runs kept (.take .kwLet)).bind fun more h₁ onward₁ found => ?_
  cases more
  · exact (body h₁ (.refl onward₁.kept)).imp fun _ _ _ _ kind => absurd kind found
  · obtain ⟨kind, now⟩ := found
    have begun : h₁.now.draft.previous.kind = .kwLet := by rw [now, Draft.advance_previous, kind]
    refine (letDeclaration value onward₁.kept begun).imp fun _ h' _ ends _ outer => ?_
    rw [now, Draft.advance_scope] at ends
    obtain ⟨name, defined⟩ := ends outer
    exact ⟨_, Draft.head?_upcoming kind name, name, defined⟩

theorem declaration : CarriesOn base (Build.declaration expr stmt) := by
  intro h onward quiet
  have ends := declarationBody value body onward.kept quiet
  rw [Recorded.run_declaration]
  dsimp only
  cases run : (do if ← Carrier.act (Build.take .kwLet) then Build.letDeclaration expr else stmt :
      Recorded Unit).run h with
  | ok a h' =>
    rw [run] at ends
    obtain ⟨onward', quiet', defines⟩ := ends
    have turn : h'.now.draft.Turn h'.moments (h'.now.draft.recordSpan h.now.draft.chunk.code.size
        (h.now.draft.current.span.join h'.now.draft.previous.span)) :=
      .of_quiet quiet' (.nothing rfl rfl) List.suffix_rfl
    refine ⟨⟨⟨.next onward'.kept.chronicle turn, ?_⟩,
      onward'.moments.trans (List.suffix_cons _ _)⟩, quiet', trivial⟩
    exact List.forall_mem_cons.2 ⟨fun kind outer _ => defines kind outer, onward'.kept.calls⟩
  | error e h' =>
    rw [run] at ends
    obtain ⟨onward', more⟩ := ends
    have turn : h'.now.draft.Turn h'.moments h'.now.draft.synchronize :=
      ⟨.nothing rfl rfl, List.suffix_rfl, fun _ => .inr (.inl rfl)⟩
    refine ⟨⟨⟨.next onward'.kept.chronicle turn, ?_⟩,
      onward'.moments.trans (List.suffix_cons _ _)⟩, rfl, trivial⟩
    refine List.forall_mem_cons.2 ⟨fun _ _ clean => ?_, onward'.kept.calls⟩
    exact absurd (congrArg List.length clean) (Nat.ne_of_gt more)

end

theorem blockBody {decl : Recorded Unit} (each : ∀ base, CarriesOn base decl) (fuel : Nat) :
    CarriesOn base (Build.blockBody decl fuel) := by
  induction fuel with
  | zero => exact outside
  | succ fuel ih =>
    refine current.seq fun t => ?_
    dsimp only
    split
    · exact expect _ _
    · exact (each _).seq fun _ => ih

theorem declarations {decl : Recorded Unit} (each : ∀ base, CarriesOn base decl) (fuel : Nat) :
    CarriesOn base (Build.declarations decl fuel) := by
  induction fuel with
  | zero => exact outside
  | succ fuel ih =>
    refine (take _).seq fun more => ?_
    cases more
    · exact (each _).seq fun _ => ih
    · exact of_pure ()

section

variable {expr : Recorded Unit} (value : ∀ base, CarriesOn base expr)

include value

theorem statement (fuel : Nat) : CarriesOn base (Build.statement expr fuel) := by
  induction fuel generalizing base with
  | zero => exact outside
  | succ fuel ih =>
    refine current.seq fun t => ?_
    split
    · exact advance.seq fun _ => printStatement value
    · exact advance.seq fun _ => ifStatement value (fun _ => ih) _
    · exact advance.seq fun _ => whileStatement value fun _ => ih
    · exact advance.seq fun _ => enterBlock.seq fun _ =>
        andThen (o := .action) (blockBody (fun _ => declaration value fun _ => ih) _) trivial
          .leaveBlock
    · exact expressionStatement value

end

theorem text (fuel : Nat) : CarriesOn base (Recorded.text fuel) :=
  have value (base : History) : CarriesOn base _ := expression fuel .assignment
  declarations (fun _ => declaration value fun _ => statement value fuel) fuel

end Arrives

end StackScript
