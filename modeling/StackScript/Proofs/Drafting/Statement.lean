import StackScript.Proofs.Drafting.Blocks

/-! Compilation along a whole tree writes its fragment, and ends well exactly when the tree
obeys the static rules. -/

namespace StackScript

open Build Fragment

theorem lawful_append (es es' : List Expr) (bs bs' : List (List Decl)) (m n : Nat) :
    Lawful es bs m ∧ Lawful es' bs' n ↔ Lawful (es ++ es') (bs ++ bs') (max m n) := by
  simp only [Lawful, List.mem_append, or_imp, forall_and, Nat.max_le]
  constructor
  · rintro ⟨⟨es, bs, m⟩, es', bs', n⟩
    exact ⟨⟨es, es'⟩, ⟨bs, bs'⟩, m, n⟩
  · rintro ⟨⟨es, es'⟩, ⟨bs, bs'⟩, m, n⟩
    exact ⟨⟨es, bs, m⟩, es', bs', n⟩

theorem lawful_cons (e : Expr) (es : List Expr) (bs : List (List Decl)) (n : Nat) :
    e.Readable ∧ Lawful es bs n ↔ Lawful (e :: es) bs n := by
  simp only [Lawful, List.mem_cons, forall_eq_or_imp, and_assoc]

variable {known : List Value} {o : Scope} {locals here : List Text}

theorem Expr.emits_settled (known : List Value) (settled : o.Settled locals) (e : Expr) :
    Emits known o o e.build e.Readable (e.fragment locals) :=
  (e.emits known settled.shows).congr (by simp [Lawful]) rfl

def Decl.Law (here : List Text) (height : Nat) (d : Decl) : Prop :=
  (∀ x ∈ d.bound?, x ∉ here) ∧ d.SelfFree ∧ Lawful d.exprs d.blocks (height + d.peak false)

theorem Emits.of_expression_statement {op : Opcode} (plain : op.operandWidth = 0)
    (settled : o.Settled locals) (e : Expr) :
    Emits known o o (do e.build; advance; emit op) (Lawful [e] [] locals.length)
      (e.fragment locals ++ of [.plain op]) := by
  refine ((e.emits_settled known settled).true_bind (of_emit plain).advance_left).congr ?_ rfl
  simp [Lawful, settled.shows.few]

theorem lawful_branch (c : Expr) (s : Stmt) (r : Rest) (n : Nat) :
    ((c.Readable ∧ Lawful s.exprs s.blocks (n + s.peak)) ∧ Lawful r.exprs r.blocks (n + r.peak)) ↔
      Lawful (c :: (s.exprs ++ r.exprs)) (s.blocks ++ r.blocks) (n + max s.peak r.peak) := by
  rw [and_assoc, lawful_append, lawful_cons, Nat.add_max_add_left]

theorem Emits.of_binding {name : Token} {value : Build Unit} {p : Prop} {f : Fragment} {d : Decl}
    (settled : o.Settled locals)
    (h : Emits known (o.pending here name.lexeme) (o.pending here name.lexeme) value p f)
    (bound : d.bound? = some name.lexeme)
    (law : p ↔ d.SelfFree ∧ ∀ e ∈ d.exprs, e.Readable) (blocks : d.blocks = [])
    (peak : d.peak false = 1) :
    Emits known (o.within here) (o.within (d.extend false here)) (do advance; advance; declare name value)
      (d.Law here (here ++ locals).length) f := by
  have extend : d.extend false here = name.lexeme :: here := by simp [Decl.extend, bound]
  rw [extend]
  refine (Emits.of_declare settled h).advance_left.advance_left.congr ?_ rfl
  simp only [Decl.Law, bound, Option.mem_def, Option.some.injEq, forall_eq', Lawful, blocks, peak,
    List.not_mem_nil, false_imp_iff, implies_true, true_and, law]
  constructor
  · rintro ⟨fresh, room, free, readable⟩
    exact ⟨fresh, free, readable, room⟩
  · rintro ⟨fresh, free, readable, room⟩
    exact ⟨fresh, room, free, readable⟩

theorem law_cons (here : List Text) (d : Decl) (ds : List Decl) (locals : List Text) :
    d.Law here (here ++ locals).length ∧ (boundNames ds ++ d.extend false here).Nodup ∧
        (∀ d ∈ ds, d.SelfFree) ∧ Lawful (exprsAll ds) (blocksAll ds)
          ((d.extend false here ++ locals).length + peakAll false ds) ↔
      (boundNames (d :: ds) ++ here).Nodup ∧ (∀ x ∈ d :: ds, x.SelfFree) ∧
        Lawful (exprsAll (d :: ds)) (blocksAll (d :: ds))
          ((here ++ locals).length + peakAll false (d :: ds)) := by
  have height : (here ++ locals).length + peakAll false (d :: ds) =
      max ((here ++ locals).length + d.peak false)
        ((d.extend false here ++ locals).length + peakAll false ds) := by
    have length : (d.extend false here).length = (d.extend false []).length + here.length := by
      simp [Decl.extend]
    rw [peakAll, List.length_append, List.length_append, length]
    omega
  have fresh (nodup : (boundNames ds ++ d.extend false here).Nodup) : ∀ x ∈ d.bound?, x ∉ here := by
    intro x bound
    have inner := (List.nodup_append.1 nodup).2.1
    rw [Option.mem_def] at bound
    simp only [Decl.extend, bound, Bool.false_eq_true, if_false, Option.toList_some,
      List.cons_append, List.nil_append] at inner
    exact (List.nodup_cons.1 inner).1
  rw [boundNames_cons, height, exprsAll, blocksAll, ← lawful_append]
  simp only [Decl.Law, List.mem_cons, forall_eq_or_imp]
  constructor
  · rintro ⟨⟨_, free, law⟩, nodup, free', law'⟩
    exact ⟨nodup, ⟨free, free'⟩, law, law'⟩
  · rintro ⟨nodup, ⟨free, free'⟩, law, law'⟩
    exact ⟨⟨fresh nodup, free, law⟩, nodup, free', law'⟩

theorem Decl.Law.extend {d : Decl} {here locals : List Text} (h : d.Law here (here ++ locals).length)
    (distinct : here.Nodup) :
    (d.extend false here).Nodup ∧ (d.extend false here ++ locals).length ≤ Scope.maxLocals := by
  obtain ⟨fresh, _, _, _, few⟩ := h
  cases bound : d.bound? with
  | none =>
    have extend : d.extend false here = here := by simp [Decl.extend, bound]
    rw [extend]
    exact ⟨distinct, Nat.le_trans (Nat.le_add_right _ _) few⟩
  | some x =>
    have extend : d.extend false here = x :: here := by simp [Decl.extend, bound]
    have peak : d.peak false = 1 := by
      cases d with
      | statement s => simp [Decl.bound?] at bound
      | bind | bindTo => rfl
    rw [extend]
    rw [peak] at few
    exact ⟨List.nodup_cons.2 ⟨fresh x bound, distinct⟩, by simpa [Nat.add_assoc] using few⟩

mutual

theorem Stmt.emits {o : Scope} {locals : List Text} (known : List Value)
    (settled : o.Settled locals) : (s : Stmt) →
    Emits known o o s.build (Lawful s.exprs s.blocks (locals.length + s.peak)) (s.fragment locals)
  | .print _ e _ => (Emits.of_expression_statement rfl settled e).advance_left
  | .expression e _ => Emits.of_expression_statement rfl settled e
  | .branch _ c s r =>
    (RestEmits.of_arm (c.emits_settled known settled) (s.emits known settled)
      (r.emits known settled)).emits.advance_left.congr (lawful_branch c s r _) rfl
  | .loop _ c s =>
    ((c.emits_settled known settled).of_whileStatement (s.emits known settled)).advance_left.congr
      (lawful_cons _ _ _ _) rfl
  | .block _ ds _ => by
    have few : ([] ++ locals).length ≤ Scope.maxLocals := settled.shows.few
    have body := (emits_block known settled few List.nodup_nil ds).true_bind
      (Emits.of_leaveBlock settled).advance_left
    refine (Emits.of_enterBlock.bind_true body).advance_left.congr ?_ ?_
    · simp only [List.append_nil, List.nil_append, Lawful, Stmt.exprs, Stmt.blocks, Stmt.peak,
        List.mem_cons, forall_eq_or_imp, WellScoped]
      constructor
      · rintro ⟨nodup, free, readable, blocks, few⟩
        exact ⟨readable, ⟨⟨nodup, free⟩, blocks⟩, few⟩
      · rintro ⟨readable, ⟨⟨nodup, free⟩, blocks⟩, few⟩
        exact ⟨nodup, free, readable, blocks, few⟩
    · rw [of_nil_append, List.append_nil]
      rfl

theorem Rest.emits {o : Scope} {locals : List Text} (known : List Value)
    (settled : o.Settled locals) : (r : Rest) →
    RestEmits known o r.build (Lawful r.exprs r.blocks (locals.length + r.peak)) (r.fragment locals)
  | .done => RestEmits.of_done.congr (by simp [Lawful, Rest.exprs, Rest.blocks, Rest.peak, settled.shows.few])
  | .elif _ c s r =>
    (RestEmits.of_arm (c.emits_settled known settled) (s.emits known settled)
      (r.emits known settled)).advance_left.congr (lawful_branch c s r _)
  | .otherwise _ s => (RestEmits.of_otherwise (s.emits known settled)).advance_left

theorem Decl.emits {o : Scope} {locals here : List Text} (known : List Value)
    (settled : o.Settled locals) (few : (here ++ locals).length ≤ Scope.maxLocals) : (d : Decl) →
    Emits known (o.within here) (o.within (d.extend false here)) d.body
      (d.Law here (here ++ locals).length) (d.fragment false (here ++ locals))
  | .bind _ name _ => by
    have value : Emits known (o.pending here name.lexeme) (o.pending here name.lexeme)
        (do emit .pushNone; advance) True (of [.plain .pushNone]) :=
      (Emits.of_emit rfl).advance_right
    refine (Emits.of_binding settled value rfl ?_ rfl rfl).congr Iff.rfl ?_
    · simp [Decl.SelfFree, Decl.exprs]
    · simp [Decl.fragment, binding]
  | .bindTo _ name _ e _ => by
    have value := (e.emits known (settled.pending few name.lexeme)).advance_right.advance_left
    refine (Emits.of_binding settled value rfl ?_ rfl rfl).congr Iff.rfl ?_
    · simp only [Expr.Lawful, Decl.SelfFree, Decl.exprs, List.mem_singleton, forall_eq, ne_eq,
        Option.some.injEq, and_comm]
      exact and_congr_right fun _ => ⟨fun h mem => h _ mem rfl, fun h x mem same => h (same ▸ mem)⟩
    · simp [Decl.fragment, binding]
  | .statement s => by
    refine (s.emits known (settled.within few)).congr ?_ rfl
    simp [Decl.Law, Decl.bound?, Decl.SelfFree, Decl.exprs, Decl.blocks, Decl.peak]

theorem emits_block {o : Scope} {locals here : List Text} (known : List Value)
    (settled : o.Settled locals) (few : (here ++ locals).length ≤ Scope.maxLocals)
    (distinct : here.Nodup) : (ds : List Decl) →
    Emits known (o.within here) (o.within (boundNames ds ++ here)) (buildAll ds)
      ((boundNames ds ++ here).Nodup ∧ (∀ d ∈ ds, d.SelfFree) ∧
        Lawful (exprsAll ds) (blocksAll ds) ((here ++ locals).length + peakAll false ds))
      (fragmentAll false (here ++ locals) ds)
  | [] => by
    intro d ready scope grown
    refine ⟨⟨⟨distinct, by simp, ?_⟩, fits_of_nil, ready.room⟩, .refl ready, scope⟩
    simpa [Lawful, exprsAll, blocksAll, peakAll] using few
  | d :: ds => by
    have first := (Decl.emits known settled few d).of_marked d.span
    have all := first.bind_of fun law =>
      have next := law.extend distinct
      emits_block known settled next.2 next.1 ds
    have law := law_cons here d ds locals
    rw [boundNames_cons] at law
    rw [buildAll_cons, boundNames_cons]
    refine all.congr law ?_
    rw [fragmentAll]
    simp [Decl.extend]

end

theorem Scope.settled_empty : ({} : Scope).Settled [] where
  shows := ⟨⟨[], rfl, by simp, rfl⟩, Nat.zero_le _⟩
  depths := by simp

theorem Decl.emits_top (known : List Value) (d : Decl) :
    Emits known {} {} d.body (Lawful d.exprs d.blocks (d.peak true)) (d.fragment true []) := by
  cases d with
  | bind word name semicolon =>
    have value : Emits known {} {} (do emit .pushNone; advance) True (of [.plain .pushNone]) :=
      (Emits.of_emit rfl).advance_right
    refine (Emits.of_declare_global rfl value).advance_left.advance_left.congr ?_ rfl
    simp [Lawful, Decl.exprs, Decl.blocks, Decl.peak, Decl.extend]
  | bindTo word name equals e semicolon =>
    have value := (e.emits_settled known Scope.settled_empty).advance_right.advance_left
    refine (Emits.of_declare_global rfl value).advance_left.advance_left.congr ?_ rfl
    simp [Lawful, Decl.exprs, Decl.blocks, Decl.peak, Decl.extend]
  | statement s =>
    refine (s.emits known Scope.settled_empty).congr ?_ rfl
    simp [Decl.exprs, Decl.blocks, Decl.peak]

theorem emits_top (known : List Value) (ds : List Decl) :
    Emits known {} {} (buildAll ds) (Lawful (exprsAll ds) (blocksAll ds) (peakAll true ds))
      (fragmentAll true [] ds) := by
  induction ds with
  | nil =>
    intro d ready scope grown
    refine ⟨⟨?_, fits_of_nil, ready.room⟩, .refl ready, scope⟩
    simp [Lawful, exprsAll, blocksAll, peakAll]
  | cons d ds ih =>
    rw [buildAll_cons]
    refine (((d.emits_top known).of_marked d.span).bind ih).congr ?_ ?_
    · rw [lawful_append]
      simp [exprsAll, blocksAll, peakAll, Decl.extend]
    · rw [fragmentAll]
      simp [Decl.extend]

end StackScript
