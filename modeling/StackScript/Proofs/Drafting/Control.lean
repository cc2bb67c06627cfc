import StackScript.Proofs.Drafting.Emission

/-! Branches and loops. The jumps to the end of a branch stay open until all its arms are
written, and are then patched together, each to the end of the code. -/

namespace StackScript

open Build Fragment

variable {known : List Value} {s : Scope} {x y : Build Unit} {p q : Prop} {f g : Fragment}

theorem Emits.conditioned (first : Emits known s s x p f) (second : Emits known s s y q g)
    {base d : Draft} {before : Fragment} (drafted : Drafted base d before) (scope : d.scope = s)
    (grown : known <+: base.pool) (fits : before.Fits) {r : Prop} {α : Type}
    {post : α → Draft → Prop} {k : Nat → Build α}
    (needed : r → (p ∧ q) ∧ (f.Fits ∧ g.Fits) ∧ base.Holds (before.uses ++ (f.uses ++ g.uses)))
    (rest : p → q → f.Fits → g.Fits → ∀ d', Drafted base d' (before ++ f ++
        (of [.jumpFalse openDistance] ++ (of [.plain .pop] ++ g))) → d'.scope = s →
      Exactly r post ((k (base.chunk.code.size + (before ++ f).size + 1)).run d')) :
    Exactly r post ((do
      x
      let skip ← emitJump .jumpFalse
      emit .pop
      y
      k skip).run d) := by
  refine (first.after drafted scope (grown.trans drafted.grows) trivial fits).bind ?_ ?_
  · intro condition
    obtain ⟨laws, fits', holds⟩ := needed condition
    rw [← List.append_assoc] at holds
    exact ⟨⟨trivial, laws.1⟩, (fits_append _ _).2 ⟨fits, fits'.1⟩, holds.left⟩
  · rintro ⟨⟨_, law⟩, fits₁, _⟩ _ d₁ ⟨drafted₁, scope₁⟩
    refine Exactly.emitJump (.inr rfl) drafted₁ fun d₂ jumped scope₂ =>
      Exactly.emit rfl jumped fun d₃ popped scope₃ => ?_
    have fits₃ : (before ++ f ++ of [.jumpFalse openDistance] ++ of [.plain .pop]).Fits := by
      rw [fits_append, fits_append]
      exact ⟨⟨fits₁, by simp [Asm.distance, openDistance]⟩, by simp [Asm.distance]⟩
    have scopes := scope₃.trans (scope₂.trans scope₁)
    refine (second.after popped scopes (grown.trans popped.grows) trivial fits₃).bind ?_ ?_
    · intro condition
      obtain ⟨laws, fits', holds⟩ := needed condition
      refine ⟨⟨trivial, laws.2⟩, (fits_append _ _).2 ⟨fits₃, fits'.2⟩, ?_⟩
      simpa using holds
    · rintro ⟨⟨_, law'⟩, fits₄, _⟩ _ d₄ ⟨drafted₄, scope₄⟩
      rw [fits_append] at fits₁ fits₄
      rw [append_assoc, append_assoc] at drafted₄
      exact rest law law' fits₁.2 fits₄.2 d₄ drafted₄ scope₄

theorem fits_guarded (f g : Fragment) :
    (guarded f g).Fits ↔ (f.Fits ∧ g.Fits) ∧ 1 + g.size + 3 < 65536 := by
  simp only [guarded, fits_append, fits_of_cons, fits_of_nil, Asm.distance, and_true, and_assoc]
  exact ⟨fun h => ⟨h.1, h.2.2.2, h.2.1⟩, fun h => ⟨h.1, h.2.2, by decide, h.2.1⟩⟩

@[simp] theorem uses_guarded (f g : Fragment) : (guarded f g).uses = f.uses ++ g.uses := by
  simp [guarded]

/-- Behind what it guards, the condition's jump leads over the jump that ends the arm. -/
theorem guarded_eq_skipped (before f g : Fragment) (last : Asm) (size : last.size = 3) :
    before ++ f ++ skipped .jumpFalse (of [.plain .pop] ++ (g ++ of [last])) =
      before ++ guarded f g ++ of [last] := by
  have sizes : (of [.plain .pop] ++ (g ++ of [last])).size = 1 + g.size + 3 := by
    simp [size, Nat.add_assoc]
  simp only [skipped, sizes, guarded, append_assoc]

theorem Emits.armed (first : Emits known s s x p f) (second : Emits known s s y q g)
    {base d : Draft} {before : Fragment} (drafted : Drafted base d before) (scope : d.scope = s)
    (grown : known <+: base.pool) (fits : before.Fits) {r : Prop} {α : Type}
    {post : α → Draft → Prop} {k : Nat → Build α}
    (needed : r → (p ∧ q) ∧ (guarded f g).Fits ∧ base.Holds (before.uses ++ (guarded f g).uses))
    (rest : p → q → (guarded f g).Fits → ∀ d', Drafted base d' (before ++ guarded f g ++
        (of [.jump openDistance] ++ of [.plain .pop])) → d'.scope = s →
      Exactly r post ((k (base.chunk.code.size + (before ++ guarded f g).size + 1)).run d')) :
    Exactly r post ((Build.arm x y >>= k).run d) := by
  have forward : Asm.Forward .jumpFalse := .inr rfl
  have forward' : Asm.Forward .jump := .inl rfl
  simp only [Build.arm, bind_assoc, pure_bind]
  refine first.conditioned second drafted scope grown fits ?_ ?_
  · intro condition
    obtain ⟨laws, fits', holds⟩ := needed condition
    rw [uses_guarded] at holds
    exact ⟨laws, ((fits_guarded f g).1 fits').1, holds⟩
  · intro law law' fitsf fitsg d₁ drafted₁ scope₁
    refine Exactly.emitJump forward' drafted₁ fun d₂ jumped scope₂ => ?_
    rw [append_assoc (before ++ f), append_assoc (of _), append_assoc (of _)] at jumped
    have sizes : (of [.plain .pop] ++ (g ++ of [.jump openDistance])).size = 1 + g.size + 3 := by
      simp [Nat.add_assoc]
    refine (exactly_patchJump forward jumped rfl).bind ?_ ?_
    · intro condition
      rw [sizes]
      exact ((fits_guarded f g).1 (needed condition).2.1).2
    · rintro small _ d₃ ⟨patched, scope₃⟩
      rw [guarded_eq_skipped _ _ _ _ (forward'.size _)] at patched
      refine Exactly.emit rfl patched fun d₄ popped scope₄ => ?_
      rw [sizes] at small
      have exit : base.chunk.code.size + (before ++ f ++ (of [.jumpFalse openDistance] ++
          (of [.plain .pop] ++ g))).size + 1 = base.chunk.code.size + (before ++ guarded f g).size + 1 := by
        simp [guarded, Nat.add_assoc]
      rw [exit]
      rw [append_assoc] at popped
      exact rest law law' ((fits_guarded f g).2 ⟨⟨fitsf, fitsg⟩, small⟩) d₄ popped
        (scope₄.trans (scope₃.trans (scope₂.trans scope₁)))

theorem Emits.of_whileStatement (first : Emits known s s x p f) (second : Emits known s s y q g) :
    Emits known s s (whileStatement x y) (p ∧ q) (Fragment.loop f g) := by
  intro d ready scope grown
  have forward : Asm.Forward .jumpFalse := .inr rfl
  refine Exactly.step rfl ?_
  refine first.conditioned second (.refl ready) scope grown fits_of_nil ?_ ?_
  · rintro ⟨laws, fits, holds⟩
    rw [Fragment.loop, fits_append, fits_guarded] at fits
    exact ⟨laws, fits.1.1, by simpa [Fragment.loop] using holds⟩
  · intro law law' fitsf fitsg d₁ drafted₁ scope₁
    rw [of_nil_append] at drafted₁
    have distance : d₁.chunk.code.size + 3 - d.chunk.code.size = (guarded f g).size + 3 := by
      have size := drafted₁.size
      simp only [size_append, size_of, Asm.total_cons, Asm.total_nil, Asm.size_jumpFalse,
        Asm.size_pop, guarded] at size ⊢
      omega
    refine (exactly_emitLoop drafted₁.ready d.chunk.code.size).bind ?_ ?_
    · rintro ⟨_, fits, _⟩
      rw [distance]
      simp only [Fragment.loop, fits_append, fits_of_cons, Asm.distance] at fits
      exact fits.2.1.1
    · rw [distance]
      rintro far _ d₂ ⟨looped, scope₂⟩
      have all := drafted₁.trans looped
      rw [append_assoc f, append_assoc (of _), append_assoc (of _)] at all
      have sizes : (of [.plain .pop] ++ (g ++ of [.loop ((guarded f g).size + 3)])).size =
          1 + g.size + 3 := by
        simp [Nat.add_assoc]
      refine (exactly_patchJump forward all (by rw [of_nil_append])).bind ?_ ?_
      · rintro ⟨_, fits, _⟩
        rw [Fragment.loop, fits_append, fits_guarded] at fits
        rw [sizes]
        exact fits.1.2
      · rintro small _ d₃ ⟨patched, scope₃⟩
        have equal := guarded_eq_skipped (of []) f g (.loop ((guarded f g).size + 3)) rfl
        simp only [of_nil_append] at equal
        rw [equal] at patched
        have done := patched.trans (.emit patched.ready (show Opcode.pop.operandWidth = 0 from rfl))
        rw [append_assoc] at done
        rw [sizes] at small
        refine ⟨⟨⟨law, law'⟩, ?_, done.holds⟩, done, scope₃.trans (scope₂.trans scope₁)⟩
        rw [Fragment.loop, fits_append, fits_guarded]
        exact ⟨⟨⟨fitsf, fitsg⟩, small⟩, by simpa [Asm.distance] using far⟩

/-- A jump to the end of what follows, still open. -/
def Fragment.opened (before : List Fragment) (f : Fragment) : Fragment :=
  before.foldr (fun p rest => p ++ (of [.jump openDistance] ++ rest)) f

def Fragment.closed (before : List Fragment) (f : Fragment) : Fragment :=
  before.foldr (fun p rest => p ++ skipped .jump rest) f

def exitsFrom (start : Nat) : List Fragment → List Nat
  | [] => []
  | p :: before => (start + p.size + 1) :: exitsFrom (start + p.size + 3) before

theorem size_opened (before : List Fragment) (f : Fragment) :
    (opened before f).size = (closed before f).size := by
  induction before with
  | nil => rfl
  | cons p before ih =>
    change (p ++ (of [.jump openDistance] ++ opened before f)).size =
      (p ++ (of [.jump (closed before f).size] ++ closed before f)).size
    simp [ih]

theorem exactly_patchAll {base : Draft} (before : List Fragment) {d : Draft} {start : Fragment}
    {f : Fragment} (drafted : Drafted base d (start ++ opened before f))
    (fits : ∀ p ∈ before, p.Fits) (last : f.Fits) :
    Exactly (closed before f).Fits
      (fun _ d' => Drafted base d' (start ++ closed before f) ∧ d'.scope = d.scope)
      ((patchAll (exitsFrom (base.chunk.code.size + start.size) before)).run d) := by
  induction before generalizing d start with
  | nil => exact ⟨last, drafted, rfl⟩
  | cons p before ih =>
    have forward : Asm.Forward .jump := .inl rfl
    change Drafted base d (start ++ (p ++ (of [.jump openDistance] ++ opened before f))) at drafted
    rw [← append_assoc start] at drafted
    have fits' : (closed (p :: before) f).Fits ↔ (closed before f).size < 65536 ∧ (closed before f).Fits := by
      change (p ++ skipped .jump (closed before f)).Fits ↔ _
      rw [fits_append, forward.fits_skipped]
      exact and_iff_right (fits p List.mem_cons_self)
    have exit : base.chunk.code.size + start.size + p.size + 1 =
        base.chunk.code.size + (start ++ p).size + 1 := by
      rw [size_append]
      omega
    refine (exactly_patchJump forward drafted exit).bind ?_ ?_
    · intro condition
      rw [size_opened]
      exact (fits'.1 condition).1
    · rintro small _ d₁ ⟨patched, scope⟩
      rw [skipped, ← append_assoc (start ++ p), size_opened] at patched
      rw [size_opened] at small
      have next : base.chunk.code.size + start.size + p.size + 3 =
          base.chunk.code.size + (start ++ p ++ of [.jump (closed before f).size]).size := by
        simp [Nat.add_assoc]
      change Exactly _ _ ((patchAll (exitsFrom (base.chunk.code.size + start.size + p.size + 3)
        before)).run d₁)
      rw [next]
      refine (ih patched fun p mem => fits p (List.mem_cons_of_mem _ mem)).imp ?_ ?_
      · rw [fits']
        exact ⟨fun h => ⟨small, h⟩, And.right⟩
      · rintro _ d₂ _ ⟨drafted₂, scope₂⟩
        rw [append_assoc, append_assoc] at drafted₂
        exact ⟨drafted₂, scope₂.trans scope⟩

theorem opened_append (before : List Fragment) (p f : Fragment) :
    opened (before ++ [p]) f = opened before (p ++ (of [.jump openDistance] ++ f)) := by
  simp [opened]

theorem closed_append (before : List Fragment) (p f : Fragment) :
    closed (before ++ [p]) f = closed before (p ++ skipped .jump f) := by
  simp [closed]

theorem opened_extend (before : List Fragment) (f g : Fragment) :
    opened before f ++ g = opened before (f ++ g) := by
  induction before with
  | nil => rfl
  | cons p before ih =>
    change p ++ (of [.jump openDistance] ++ opened before f) ++ g =
      p ++ (of [.jump openDistance] ++ opened before (f ++ g))
    rw [append_assoc, append_assoc, ih]

theorem exitsFrom_append (start : Nat) (before : List Fragment) (p : Fragment) :
    exitsFrom start (before ++ [p]) =
      exitsFrom start before ++ [start + (opened before p).size + 1] := by
  induction before generalizing start with
  | nil => rfl
  | cons q before ih =>
    simp only [List.cons_append, exitsFrom, ih]
    have size : (opened (q :: before) p).size = q.size + (3 + (opened before p).size) := by
      change (q ++ (of [.jump openDistance] ++ opened before p)).size = _
      simp
    rw [size]
    congr 3
    omega

theorem fits_of_closed {before : List Fragment} {f : Fragment} (h : (closed before f).Fits) :
    f.Fits := by
  induction before with
  | nil => exact h
  | cons p before ih =>
    have forward : Asm.Forward .jump := .inl rfl
    exact ih ((forward.fits_skipped _).1 ((fits_append p _).1 h).2).2

theorem fits_opened {before : List Fragment} {f : Fragment} (fits : ∀ p ∈ before, p.Fits)
    (last : f.Fits) : (opened before f).Fits := by
  induction before with
  | nil => exact last
  | cons p before ih =>
    change (p ++ (of [.jump openDistance] ++ opened before f)).Fits
    rw [fits_append, fits_append]
    exact ⟨fits p List.mem_cons_self, by simp [Asm.distance, openDistance],
      ih fun p mem => fits p (List.mem_cons_of_mem _ mem)⟩

theorem uses_closed (before : List Fragment) (f : Fragment) :
    (closed before f).uses = (opened before f).uses := by
  induction before with
  | nil => rfl
  | cons p before ih =>
    change p.uses ++ ([] ++ (closed before f).uses) = p.uses ++ ([] ++ (opened before f).uses)
    rw [ih]

/-- What follows an arm writes its fragment and closes the jumps of all arms before. -/
def RestEmits (known : List Value) (s : Scope) (x : List Nat → Build Unit) (law : Prop)
    (g : Fragment) : Prop :=
  ∀ ⦃base d : Draft⦄ ⦃before : List Fragment⦄ ⦃f : Fragment⦄, Drafted base d (opened before f) →
    d.scope = s → known <+: base.pool → (∀ p ∈ before, p.Fits) → f.Fits →
    Exactly (law ∧ (closed before (f ++ g)).Fits ∧ base.Holds (closed before (f ++ g)).uses)
      (fun _ d' => Drafted base d' (closed before (f ++ g)) ∧ d'.scope = s)
      ((x (exitsFrom base.chunk.code.size before).reverse).run d)

theorem RestEmits.of_done : RestEmits known s (fun exits => patchAll exits.reverse) True (of []) := by
  intro base d before f drafted scope grown fits last
  dsimp only
  rw [List.reverse_reverse, append_of_nil]
  have all := drafted
  rw [← of_nil_append (opened before f)] at all
  refine (exactly_patchAll before all fits last).imp ?_ ?_
  · refine ⟨fun h => ⟨trivial, h, ?_⟩, fun h => h.2.1⟩
    rw [uses_closed]
    exact drafted.holds
  · rintro _ d' _ ⟨patched, scope'⟩
    rw [of_nil_append] at patched
    exact ⟨patched, scope'.trans scope⟩

theorem RestEmits.of_otherwise (h : Emits known s s x p g) :
    RestEmits known s (fun exits => do x; patchAll exits.reverse) p g := by
  intro base d before f drafted scope grown fits last
  have opens := fits_opened fits last
  refine (h.after drafted scope (grown.trans drafted.grows) trivial opens).bind ?_ ?_
  · rintro ⟨law, fits', holds⟩
    refine ⟨⟨trivial, law⟩, (fits_append _ _).2 ⟨opens, ?_⟩, ?_⟩
    · exact ((fits_append _ _).1 (fits_of_closed fits')).2
    · rwa [opened_extend, ← uses_closed]
  · rintro ⟨⟨_, law⟩, fits', _⟩ _ d₁ ⟨drafted₁, scope₁⟩
    rw [opened_extend] at drafted₁
    refine (RestEmits.of_done drafted₁ scope₁ grown fits ?_).imp ?_ ?_
    · exact (fits_append _ _).2 ⟨last, ((fits_append _ _).1 fits').2⟩
    · rw [append_of_nil]
      exact ⟨fun h => ⟨law, h.2⟩, fun h => ⟨trivial, h.2⟩⟩
    · rw [append_of_nil]
      exact fun _ _ _ => id

theorem RestEmits.of_arm {r : List Nat → Build Unit} {law : Prop} {h : Fragment}
    (first : Emits known s s x p f) (second : Emits known s s y q g)
    (rest : RestEmits known s r law h) :
    RestEmits known s (fun exits => Build.arm x y >>= fun exit => r (exit :: exits)) ((p ∧ q) ∧ law)
      (Fragment.arm f g h) := by
  intro base d before f₀ drafted scope grown fits last
  have whole : closed before (f₀ ++ Fragment.arm f g h) =
      closed (before ++ [f₀ ++ guarded f g]) (of [.plain .pop] ++ h) := by
    rw [closed_append, Fragment.arm, append_assoc]
  rw [whole]
  refine first.armed second drafted scope grown (fits_opened fits last) ?_ ?_
  · rintro ⟨⟨laws, _⟩, fits', holds⟩
    rw [closed_append] at fits'
    have inner := fits_of_closed fits'
    rw [append_assoc, fits_append, fits_append] at inner
    refine ⟨laws, inner.2.1, ?_⟩
    rw [uses_closed, opened_append, append_assoc, ← opened_extend, ← append_assoc] at holds
    exact holds.left
  · intro law₁ law₂ guards d₁ drafted₁ scope₁
    have exits : (base.chunk.code.size + (opened before f₀ ++ guarded f g).size + 1) ::
        (exitsFrom base.chunk.code.size before).reverse =
        (exitsFrom base.chunk.code.size (before ++ [f₀ ++ guarded f g])).reverse := by
      rw [exitsFrom_append, List.reverse_append, opened_extend]
      rfl
    rw [append_assoc, opened_extend, ← append_assoc, ← opened_append] at drafted₁
    rw [exits]
    refine (rest drafted₁ scope₁ grown ?_ (by simp [Asm.distance])).imp ?_ fun _ _ _ => id
    · intro p mem
      rcases List.mem_append.1 mem with mem | mem
      · exact fits p mem
      · rw [List.mem_singleton.1 mem]
        exact (fits_append _ _).2 ⟨last, guards⟩
    · exact ⟨fun condition => ⟨⟨⟨law₁, law₂⟩, condition.1⟩, condition.2⟩,
        fun condition => ⟨condition.1.2, condition.2⟩⟩

theorem RestEmits.congr {x : List Nat → Build Unit} (h : RestEmits known s x p f) (law : p ↔ q) :
    RestEmits known s x q f := by
  intro base d before f₀ drafted scope grown fits last
  exact (h drafted scope grown fits last).imp (and_congr_left fun _ => law) fun _ _ _ => id

theorem RestEmits.advance_left {x : List Nat → Build Unit} (h : RestEmits known s x p f) :
    RestEmits known s (fun exits => do advance; x exits) p f := by
  intro base d before f₀ drafted scope grown fits last
  have opens := fits_opened fits last
  have read := Emits.of_advance.after drafted scope (grown.trans drafted.grows) trivial opens
  rw [append_of_nil] at read
  refine read.bind (fun _ => ⟨⟨trivial, trivial⟩, opens, drafted.holds⟩) ?_
  rintro _ _ d₁ ⟨drafted₁, scope₁⟩
  exact h drafted₁ scope₁ grown fits last

theorem RestEmits.emits {x : List Nat → Build Unit} (h : RestEmits known s x p f) :
    Emits known s s (x []) p f := by
  intro d ready scope grown
  have all := @h d d [] (of []) (.refl ready) scope grown (by simp) fits_of_nil
  simp only [of_nil_append] at all
  exact all

end StackScript
