import StackScript.Proofs.Semantics.Expressions

/-! The code of statements and declarations simulates them. Between statements only the locals
are on the stack. -/

namespace StackScript

open Asm Config Fragment

theorem Fragment.size_pops (n : Nat) : (pops n).size = n := by
  induction n with
  | zero => rfl
  | succ n ih =>
    change 1 + (pops n).size = n + 1
    rw [ih, Nat.add_comm]

namespace Simulates

variable {code : List Asm} {bound o : Nat} {names here : List Text} {α : Type}

theorem followed {s : Spot} {x : Eval α} {t u : α → Spot} (h : Simulates code bound s x t)
    (after : ∀ a, Simulates code bound (t a) (pure a) u) : Simulates code bound s x u := by
  have all := h.bind after
  rwa [bind_pure] at all

variable {c s rest : Fragment} {x : Eval Value} {y z : Eval Unit}

theorem arm (has : Has code o (Fragment.arm c s rest).code)
    (condition : ∀ o, Has code o c.code → Simulates code bound ⟨o, names, []⟩ x fun v =>
      ⟨o + c.size, names, [v]⟩)
    (first : ∀ o, Has code o s.code → Simulates code bound ⟨o, names, []⟩ y fun _ =>
      ⟨o + s.size, names, []⟩)
    (second : ∀ o, Has code o rest.code → Simulates code bound ⟨o, names, []⟩ z fun _ =>
      ⟨o + rest.size, names, []⟩) :
    Simulates code bound ⟨o, names, []⟩ (do if (← x).truthy then y else z) fun _ =>
      ⟨o + (Fragment.arm c s rest).size, names, []⟩ := by
  have size : o + (Fragment.arm c s rest).size =
      o + c.size + 3 + 1 + s.size + 3 + 1 + rest.size := by
    simp [Fragment.arm, guarded, skipped]
    omega
  have parts : (Fragment.arm c s rest).code = c.code ++ (.jumpFalse (1 + s.size + 3) ::
      ((.plain .pop :: s.code) ++ .jump (1 + rest.size) :: .plain .pop :: rest.code)) := by
    simp [Fragment.arm, guarded, skipped]
  rw [parts] at has
  have tested : Has code (o + c.size) _ := has.right
  have exit := tested.tail.right.move (show _ = o + c.size + 3 + 1 + s.size by
    simp only [Asm.size_jumpFalse, Asm.total_cons, Asm.size_pop, total_code]
    omega)
  have other := exit.tail.move (show _ = o + c.size + 3 + (1 + s.size + 3) by
    simp only [Asm.size_jump]
    omega)
  rw [size]
  refine (condition o has.left).bind fun v => (test tested.head ?_ ?_).weaken (Nat.le_succ _)
  · refine replace tested.tail.left fun has => (first _ has).followed fun _ => ?_
    refine (jump exit.head (of_pure ?_)).weaken (Nat.le_succ _)
    simp only [Spot.mk.injEq, and_true]
    omega
  · refine replace other fun has => (second _ has).followed fun _ => of_pure ?_
    simp only [Spot.mk.injEq, and_true]
    omega

theorem iterate {rounds : Nat} (few : rounds ≤ bound) (has : Has code o (Fragment.loop c s).code)
    (condition : ∀ bound, Has code o c.code → Simulates code bound ⟨o, names, []⟩ x fun v =>
      ⟨o + c.size, names, [v]⟩)
    (body : ∀ o, Has code o s.code → Simulates code bound ⟨o, names, []⟩ y fun _ =>
      ⟨o + s.size, names, []⟩) :
    Simulates code rounds ⟨o, names, []⟩ (Eval.iterate x y rounds) fun _ =>
      ⟨o + (Fragment.loop c s).size, names, []⟩ := by
  have size : o + (Fragment.loop c s).size = o + c.size + 3 + 1 + s.size + 3 + 1 := by
    simp [Fragment.loop, guarded]
    omega
  have parts : (Fragment.loop c s).code = c.code ++ (.jumpFalse (1 + s.size + 3) ::
      ((.plain .pop :: s.code) ++ [.loop (c.size + 3 + 1 + s.size + 3), .plain .pop])) := by
    simp [Fragment.loop, guarded]
    omega
  rw [parts] at has
  have tested : Has code (o + c.size) _ := has.right
  have back := tested.tail.right.move (show _ = o + c.size + 3 + 1 + s.size by
    simp only [Asm.size_jumpFalse, Asm.total_cons, Asm.size_pop, total_code]
    omega)
  have other := back.tail.move (show _ = o + c.size + 3 + (1 + s.size + 3) by
    simp only [Asm.size_loop]
    omega)
  rw [size]
  induction rounds with
  | zero => exact fun _ c _ _ => ⟨0, c, Nat.zero_le _, .none c⟩
  | succ rounds ih =>
    have fewer : rounds ≤ bound := Nat.le_of_succ_le few
    refine (condition _ has.left).bind fun v => test tested.head ?_ ?_
    · refine replace tested.tail.left fun has => ((body _ has).weaken fewer).bind fun _ => ?_
      refine (loop back.head ?_ (ih fewer)).weaken (Nat.le_succ _)
      omega
    · refine replace other fun _ => of_pure ?_
      simp only [Spot.mk.injEq, and_true]
      omega

theorem forget_one {x : Text} (stands : At code o (.plain .pop)) :
    Simulates code bound ⟨o, x :: names, []⟩ (modify (World.forget · 1)) fun _ =>
      ⟨o + 1, names, []⟩ := by
  refine instruction stands (by simp [Asm.op, Opcode.needs]) ?_
  intro w m lines shows
  have pile := shows.pile
  have known := shows.names
  refine ⟨shows.ip, ?_, ?_, shows.globals, shows.unlimited, shows.lines⟩
  · simp only [World.forget, List.drop_one, List.map_tail, known]
    rfl
  · change m.drop.pile = (w.locals.drop 1).map (·.2)
    rw [Machine.pile_drop, pile, List.drop_one, List.map_tail]
    rfl

theorem forget (has : Has code o (Fragment.pops here.length).code) :
    Simulates code bound ⟨o, here ++ names, []⟩ (modify (World.forget · here.length)) fun _ =>
      ⟨o + here.length, names, []⟩ := by
  induction here generalizing o with
  | nil => exact fun _ c shows _ => ⟨0, c, .none c, shows⟩
  | cons x here ih =>
    have both : (modify (World.forget · (here.length + 1)) : Eval Unit) =
        modify (World.forget · 1) >>= fun _ => modify (World.forget · here.length) := by
      funext w
      change EStateM.Result.ok _ _ = EStateM.Result.ok _ _
      simp [World.forget]
    rw [List.length_cons, both, Nat.add_comm here.length, ← Nat.add_assoc]
    exact (forget_one has.head).bind fun _ => ih has.tail

theorem scoping {o' : Nat}
    (inner : Simulates code bound ⟨o, names, []⟩ y fun _ => ⟨o', here ++ names, []⟩)
    (has : Has code o' (Fragment.pops here.length).code) :
    Simulates code bound ⟨o, names, []⟩ (Eval.scoping y) fun _ => ⟨o' + here.length, names, []⟩ := by
  intro w c shows roomy
  have tracks := inner shows roomy
  simp only [Eval.scoping, EStateM.run_bind, EStateM.run_get]
  revert tracks
  rcases y.run w with ⟨⟨⟩, w₁⟩ | ⟨fault | _, w₁⟩
  · rintro ⟨n, c₁, moves, shows₁⟩
    have length : w₁.locals.length - w.locals.length = here.length := by
      have inside := congrArg List.length shows₁.names
      have outside := congrArg List.length shows.names
      simp only [List.length_map, List.length_append] at inside outside
      omega
    change Tracks code bound c _ (.ok () (w₁.forget (w₁.locals.length - w.locals.length)))
    rw [length]
    have left := @forget code bound o' names here has _ _ shows₁ (roomy.after moves)
    exact (left.before moves).weaken (Nat.le_add_left bound n)
  · exact id
  · exact id

theorem binding (top : Bool) (x : Text) (v : Value)
    (has : Has code o (Fragment.binding top x).code) :
    Simulates code bound ⟨o, names, [v]⟩ (Eval.declare top x v) fun _ =>
      ⟨o + (Fragment.binding top x).size, if top then names else x :: names, []⟩ := by
  cases top with
  | true => exact define x v has.head
  | false => exact stay x v

end Simulates

variable {code : List Asm} {bound o : Nat}

mutual

theorem Stmt.simulates {o : Nat} (names : List Text) : (s : Stmt) → (∀ e ∈ s.exprs, e.Formed) →
    Has code o (s.fragment names).code →
    Simulates code bound ⟨o, names, []⟩ (s.exec bound) fun _ =>
      ⟨o + (s.fragment names).size, names, []⟩
  | .print _ e _, formed, has => by
    have size : o + (e.fragment names ++ of [.plain .print]).size = o + (e.fragment names).size + 1 := by
      rw [size_append, ← Nat.add_assoc]
      rfl
    rw [Stmt.fragment, size]
    exact (e.simulates (formed e (by simp [Stmt.exprs])) has.left).bind fun v =>
      .print has.right.head
  | .expression e _, formed, has => by
    have size : o + (e.fragment names ++ of [.plain .pop]).size = o + (e.fragment names).size + 1 := by
      rw [size_append, ← Nat.add_assoc]
      rfl
    rw [Stmt.fragment, size]
    refine (e.simulates (formed e (by simp [Stmt.exprs])) has.left).bind fun v => ?_
    refine (Simulates.pop has.right.head ?_).weaken (Nat.le_succ _)
    exact .of_pure rfl
  | .branch _ c s r, formed, has => by
    simp only [Stmt.exprs, List.forall_mem_cons, List.forall_mem_append] at formed
    exact .arm has (fun _ => c.simulates formed.1) (fun _ => s.simulates names formed.2.1)
      fun _ => r.simulates names formed.2.2
  | .loop _ c s, formed, has => by
    simp only [Stmt.exprs, List.forall_mem_cons] at formed
    exact .iterate (Nat.le_refl _) has (fun _ => c.simulates formed.1)
      fun _ => s.simulates names formed.2
  | .block _ ds _, formed, has => by
    have size : o + (fragmentAll false names ds ++ pops (boundNames ds).length).size =
        o + (fragmentAll false names ds).size + (boundNames ds).length := by
      rw [size_append, size_pops, Nat.add_assoc]
    rw [Stmt.fragment, size]
    exact .scoping (simulates_all false names ds formed has.left) has.right

theorem Rest.simulates {o : Nat} (names : List Text) : (r : Rest) → (∀ e ∈ r.exprs, e.Formed) →
    Has code o (r.fragment names).code →
    Simulates code bound ⟨o, names, []⟩ (r.exec bound) fun _ =>
      ⟨o + (r.fragment names).size, names, []⟩
  | .done, _, _ => .of_pure rfl
  | .elif _ c s r, formed, has => by
    simp only [Rest.exprs, List.forall_mem_cons, List.forall_mem_append] at formed
    exact .arm has (fun _ => c.simulates formed.1) (fun _ => s.simulates names formed.2.1)
      fun _ => r.simulates names formed.2.2
  | .otherwise _ s, formed, has => s.simulates names formed has

theorem Decl.simulates {o : Nat} (top : Bool) (names : List Text) : (d : Decl) →
    (∀ e ∈ d.exprs, e.Formed) → Has code o (d.fragment top names).code →
    Simulates code bound ⟨o, names, []⟩ (d.exec bound top) fun _ =>
      ⟨o + (d.fragment top names).size, d.extend top names, []⟩
  | .bind _ name _, _, has => by
    have size : o + (of [.plain .pushNone] ++ binding top name.lexeme).size =
        o + 1 + (binding top name.lexeme).size := by
      rw [size_append, ← Nat.add_assoc]
      rfl
    have none : Simulates code bound ⟨o, names, []⟩ (pure Value.none) fun v => ⟨o + 1, names, [v]⟩ :=
      .push has.left.head rfl fun _ => rfl
    have all := none.bind fun v => .binding top name.lexeme v has.right
    rw [pure_bind] at all
    rw [Decl.fragment, size]
    exact all
  | .bindTo _ name _ e _, formed, has => by
    have size : o + (e.fragment names ++ binding top name.lexeme).size =
        o + (e.fragment names).size + (binding top name.lexeme).size := by simp [Nat.add_assoc]
    rw [Decl.fragment, size]
    exact (e.simulates (formed e (by simp [Decl.exprs])) has.left).bind fun v =>
      .binding top name.lexeme v has.right
  | .statement s, formed, has => by
    have same : (Decl.statement s).extend top names = names := by simp [Decl.extend, Decl.bound?]
    rw [same]
    exact s.simulates names formed has

theorem simulates_all {o : Nat} (top : Bool) (names : List Text) : (ds : List Decl) →
    (∀ e ∈ exprsAll ds, e.Formed) → Has code o (fragmentAll top names ds).code →
    Simulates code bound ⟨o, names, []⟩ (execAll bound top ds) fun _ =>
      ⟨o + (fragmentAll top names ds).size, if top then names else boundNames ds ++ names, []⟩
  | [], _, _ => by
    cases top <;> exact .of_pure rfl
  | d :: ds, formed, has => by
    simp only [exprsAll, List.forall_mem_append] at formed
    have size : o + (fragmentAll top names (d :: ds)).size =
        o + (d.fragment top names).size + (fragmentAll top (d.extend top names) ds).size := by
      rw [fragmentAll, size_append, size_marked, Nat.add_assoc]
    rw [fragmentAll, code_append, code_marked] at has
    rw [boundNames_cons, size]
    have all := (d.simulates top names formed.1 has.left).bind fun _ =>
      simulates_all top (d.extend top names) ds formed.2 has.right
    cases top with
    | true => exact all
    | false => exact all

end

end StackScript
