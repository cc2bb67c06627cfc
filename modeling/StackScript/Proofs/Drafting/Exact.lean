import StackScript.Proofs.Drafting.Writing

/-! Exact outcomes. A step is described by a condition and a relation: it ends well
exactly when the condition holds, and then what it leaves stands in the relation. The
condition of a sequence is passed through all its steps, so it is found once, at the end. -/

namespace StackScript

open Build Asm

/-- The run ends well exactly on the condition, and then as described. -/
def Exactly {α : Type} (condition : Prop) (post : α → Draft → Prop) :
    EStateM.Result GivenUp Draft α → Prop
  | .ok a d => condition ∧ post a d
  | .error _ _ => ¬ condition

namespace Exactly

variable {α β : Type} {p q : Prop} {post : α → Draft → Prop}

theorem imp {post' : α → Draft → Prop} {r : EStateM.Result GivenUp Draft α}
    (h : Exactly p post r) (same : p ↔ q) (weaker : ∀ a d, p → post a d → post' a d) :
    Exactly q post' r := by
  cases r with
  | ok a d => exact ⟨same.1 h.1, weaker a d h.1 h.2⟩
  | error e d => exact fun condition => h (same.2 condition)

theorem bind {x : Build α} {f : α → Build β} {d : Draft} {post' : β → Draft → Prop}
    (first : Exactly p post (x.run d)) (needed : q → p)
    (second : p → ∀ a d', post a d' → Exactly q post' ((f a).run d')) :
    Exactly q post' ((x >>= f).run d) := by
  rw [EStateM.run_bind]
  cases run : x.run d with
  | ok a d' =>
    rw [run] at first
    exact second first.1 a d' first.2
  | error e d' =>
    rw [run] at first
    exact fun condition => first (needed condition)

theorem step {x : Build α} {f : α → Build β} {d d' : Draft} {a : α} {post' : β → Draft → Prop}
    (run : x.run d = .ok a d') (second : Exactly q post' ((f a).run d')) :
    Exactly q post' ((x >>= f).run d) := by
  rw [EStateM.run_bind, run]
  exact second

end Exactly

namespace Draft

/-- Whether the pool has room for some more uses. -/
def Holds (d : Draft) (uses : List Value) : Prop :=
  (internAll d.pool uses).length ≤ Chunk.maxConstants

end Draft

theorem Drafted.holds {d d' : Draft} {f : Fragment} (h : Drafted d d' f) : d.Holds f.uses := by
  have room := h.ready.room
  rwa [h.pool] at room

theorem Drafted.holds_append {d d' : Draft} {f : Fragment} (h : Drafted d d' f)
    (more : List Value) : d.Holds (f.uses ++ more) ↔ d'.Holds more := by
  rw [Draft.Holds, internAll_append, Draft.Holds, h.pool]

theorem Draft.Holds.left {d : Draft} {uses more : List Value} (h : d.Holds (uses ++ more)) :
    d.Holds uses := by
  rw [Holds, internAll_append] at h
  exact Nat.le_trans (prefix_internAll _ more).length_le h

theorem Draft.hasRoom_iff (d : Draft) : d.chunk.hasRoom = true ↔ d.pool.length < Chunk.maxConstants := by
  simp [Chunk.hasRoom, pool]

theorem intern_of_ne_name {v : Value} (h : ∀ x, v ≠ .name x) (pool : List Value) :
    intern pool v = pool ++ [v] := by
  cases v with
  | name x => exact absurd rfl (h x)
  | _ => rfl

theorem exactly_emitConstant {v : Value} (h : ∀ x, v ≠ .name x) {d : Draft} (ready : d.Ready) :
    Exactly (d.Holds [v]) (fun _ d' => Drafted d d' (.constant v) ∧ d'.scope = d.scope)
      ((emitConstant v).run d) := by
  have holds : d.Holds [v] ↔ d.pool.length < Chunk.maxConstants := by
    simp only [Draft.Holds, internAll_cons, internAll_nil, intern_of_ne_name h, List.length_append,
      List.length_singleton]
    omega
  rw [run_emitConstant]
  split
  · next room =>
    rw [Draft.hasRoom_iff] at room
    refine ⟨holds.2 room, ?_, rfl⟩
    have added := Drafted.addConstant room (intern_of_ne_name h _) d.names
      (fun x i known => by
        have stands := ready.known known
        rw [List.getElem?_append_left (List.getElem?_eq_some_iff.1 stands).1, stands])
      (fun x unknown => by simpa [(h x).symm] using ready.unknown unknown)
    have stands : (Asm.load v).Operand
        ({ d with chunk := d.chunk.addConstant v, names := d.names } : Draft).pool d.pool.length := by
      simp [Asm.Operand, Draft.pool, Chunk.addConstant]
    exact added.trans (.writeWide added.ready d.line rfl stands room)
  · next full =>
    rw [Draft.hasRoom_iff] at full
    exact fun fits => full (holds.1 fits)

theorem exactly_nameConstant (t : Token) {d : Draft} (ready : d.Ready) :
    Exactly (d.Holds [.name t.lexeme])
      (fun i d' => Drafted d d' (.needing [.name t.lexeme]) ∧ d'.scope = d.scope ∧
        d'.pool[i]? = some (.name t.lexeme))
      ((nameConstant t).run d) := by
  rw [run_nameConstant]
  cases found : d.names[t.lexeme]? with
  | some i =>
    have stands := ready.known found
    have same : internAll d.pool [.name t.lexeme] = d.pool := by
      simp [intern, List.mem_of_getElem? stands]
    refine ⟨?_, ⟨ready, ⟨[], (List.append_nil _).symm, rfl⟩, same.symm,
      (List.append_nil _).symm⟩, rfl, stands⟩
    rw [Draft.Holds, same]
    exact ready.room
  | none =>
    have fresh : intern d.pool (.name t.lexeme) = d.pool ++ [.name t.lexeme] := by
      simp [intern, ready.unknown found]
    have holds : d.Holds [.name t.lexeme] ↔ d.pool.length < Chunk.maxConstants := by
      simp only [Draft.Holds, internAll_cons, internAll_nil, fresh, List.length_append,
        List.length_singleton]
      omega
    have last : (d.pool ++ [Value.name t.lexeme])[d.pool.length]? = some (.name t.lexeme) := by simp
    dsimp only
    split
    · next room =>
      rw [Draft.hasRoom_iff] at room
      refine ⟨holds.2 room, Drafted.addConstant room fresh _ ?_ ?_, rfl, ?_⟩
      · intro x i known
        rw [Std.TreeMap.getElem?_insert] at known
        split at known
        · next same =>
          obtain rfl : t.lexeme = x := Std.LawfulEqCmp.eq_of_compare same
          cases known
          exact last
        · have stands := ready.known known
          rw [List.getElem?_append_left (List.getElem?_eq_some_iff.1 stands).1, stands]
      · intro x unknown
        rw [Std.TreeMap.getElem?_insert] at unknown
        split at unknown
        · cases unknown
        · next other =>
          have differs : x ≠ t.lexeme := by
            rintro rfl
            exact other Std.ReflCmp.compare_self
          simpa [differs] using ready.unknown unknown
      · exact (congrArg (·[d.pool.length]?) Array.toList_push).trans last
    · next full =>
      rw [Draft.hasRoom_iff] at full
      exact fun fits => full (holds.1 fits)

/-- The locals of a scope by their names. A variable that is being initialized stands in
front of them and cannot be read yet. -/
structure Scope.Shows (s : Scope) (pending : Option Text) (locals : List Text) : Prop where
  names : ∃ ls : List Local, s.locals = (pending.map (⟨·, s.depth, false⟩)).toList ++ ls ∧
    (∀ l ∈ ls, l.ready) ∧ ls.map (·.name) = locals
  few : locals.length ≤ Scope.maxLocals

theorem find?_ready {ls : List Local} (ready : ∀ l ∈ ls, l.ready) (x : Text) :
    match locate x (ls.map (·.name)) with
    | .slot n => n < ls.length ∧ ∃ l, Scope.find? x ls = some (n, l) ∧ l.ready
    | .global y => y = x ∧ Scope.find? x ls = none := by
  induction ls with
  | nil => exact ⟨rfl, rfl⟩
  | cons l ls ih =>
    simp only [List.map_cons, locate, Scope.find?, List.length_map]
    by_cases same : l.name = x
    · simp only [if_pos same]
      exact ⟨Nat.lt_succ_self _, l, rfl, ready l List.mem_cons_self⟩
    · simp only [if_neg same]
      have rest := ih fun l mem => ready l (List.mem_cons_of_mem _ mem)
      revert rest
      cases locate x (ls.map (·.name)) with
      | slot n => exact fun rest => ⟨Nat.lt_succ_of_lt rest.1, rest.2⟩
      | global y => exact id

theorem Scope.Shows.resolve {s : Scope} {pending : Option Text} {locals : List Text}
    (h : s.Shows pending locals) {x : Text} (settled : pending ≠ some x) :
    match locate x locals with
    | .slot n => n < maxLocals ∧ ∃ l, s.resolve? x = some (n, l) ∧ l.ready
    | .global y => y = x ∧ s.resolve? x = none := by
  obtain ⟨ls, split, ready, rfl⟩ := h.names
  have few := h.few
  rw [List.length_map] at few
  have found : s.resolve? x = find? x ls := by
    unfold resolve?
    rw [split]
    cases pending with
    | none => rfl
    | some y =>
      have other : y ≠ x := fun same => settled (congrArg some same)
      simp [find?, other]
  have rest := find?_ready ready x
  rw [found]
  split at rest
  · exact ⟨Nat.lt_of_lt_of_le rest.1 few, rest.2⟩
  · exact rest

theorem Scope.Shows.resolve_pending {s : Scope} {x : Text} {locals : List Text}
    (h : s.Shows (some x) locals) : ∃ n l, s.resolve? x = some (n, l) ∧ l.ready = false := by
  obtain ⟨ls, split, _, _⟩ := h.names
  refine ⟨ls.length, ⟨x, s.depth, false⟩, ?_, rfl⟩
  unfold resolve?
  rw [split]
  simp [find?]

def Place.Denotes (pool : List Value) : Place → Location → Prop
  | .slot n, .slot k => n = k ∧ k < Scope.maxLocals
  | .global i, .global x => pool[i]? = some (.name x)
  | _, _ => False

theorem Place.Denotes.mono {pool pool' : List Value} {p : Place} {l : Location}
    (h : p.Denotes pool l) (grows : pool <+: pool') : p.Denotes pool' l := by
  match p, l, h with
  | .slot _, .slot _, h => exact h
  | .global _, .global x, h => exact Asm.Operand.mono (a := .define x) grows h

theorem exactly_place (t : Token) {d : Draft} (ready : d.Ready) {pending : Option Text}
    {locals : List Text} (shows : d.scope.Shows pending locals) :
    Exactly (pending ≠ some t.lexeme ∧ d.Holds (locate t.lexeme locals).uses)
      (fun p d' => Drafted d d' (.needing (locate t.lexeme locals).uses) ∧ d'.scope = d.scope ∧
        p.Denotes d'.pool (locate t.lexeme locals))
      ((place t).run d) := by
  rw [run_place]
  by_cases settled : pending = some t.lexeme
  · subst settled
    obtain ⟨n, l, found, pending⟩ := shows.resolve_pending
    simp only [found, pending]
    exact fun h => h.1 rfl
  · have found := shows.resolve settled
    split at found
    · next located =>
      obtain ⟨small, l, resolved, readable⟩ := found
      rw [located]
      simp only [resolved, readable, if_true]
      exact ⟨⟨settled, ready.room⟩, .refl ready, rfl, rfl, small⟩
    · next located =>
      obtain ⟨rfl, resolved⟩ := found
      rw [located]
      have named := exactly_nameConstant t ready
      simp only [resolved]
      revert named
      cases (nameConstant t).run d with
      | ok i d' => exact fun named => ⟨⟨settled, named.1⟩, named.2⟩
      | error e d' => exact fun named h => named h.2

theorem Drafted.emitGet {d : Draft} (ready : d.Ready) {p : Place} {l : Location}
    (denotes : p.Denotes d.pool l) (t : Token) :
    Drafted d (p.emitGet t d) (.blaming (.get l) t) := by
  match p, l, denotes with
  | .slot _, .slot k, ⟨rfl, small⟩ => exact .emitByteAt (a := .get (.slot k)) ready rfl rfl small t
  | .global i, .global x, stands =>
    have small : i < d.pool.length := (List.getElem?_eq_some_iff.1 stands).1
    exact .emitWideAt (a := .get (.global x)) ready rfl stands (Nat.lt_of_lt_of_le small ready.room) t

theorem Drafted.emitSet {d : Draft} (ready : d.Ready) {p : Place} {l : Location}
    (denotes : p.Denotes d.pool l) (t : Token) :
    Drafted d (p.emitSet t d) (.blaming (.set l) t) := by
  match p, l, denotes with
  | .slot _, .slot k, ⟨rfl, small⟩ => exact .emitByteAt (a := .set (.slot k)) ready rfl rfl small t
  | .global i, .global x, stands =>
    have small : i < d.pool.length := (List.getElem?_eq_some_iff.1 stands).1
    exact .emitWideAt (a := .set (.global x)) ready rfl stands (Nat.lt_of_lt_of_le small ready.room) t

def Asm.Forward (jump : Nat → Asm) : Prop := jump = .jump ∨ jump = .jumpFalse

theorem Asm.Forward.op {jump : Nat → Asm} (h : Forward jump) (m n : Nat) :
    (jump m).op = (jump n).op ∧ (jump n).op.operandWidth = 2 := by
  rcases h with rfl | rfl
  all_goals exact ⟨rfl, rfl⟩

theorem Asm.Forward.operand {jump : Nat → Asm} (h : Forward jump) (pool : List Value) (n : Nat) :
    (jump n).Operand pool n := by
  rcases h with rfl | rfl
  all_goals exact Eq.refl n

theorem Asm.Forward.size {jump : Nat → Asm} (h : Forward jump) (n : Nat) : (jump n).size = 3 := by
  rw [Asm.size, (h.op n n).2]

theorem Asm.Forward.fits_skipped {jump : Nat → Asm} (h : Forward jump) (f : Fragment) :
    (f.skipped jump).Fits ↔ f.size < 65536 ∧ f.Fits := by
  rcases h with rfl | rfl
  all_goals simp [Fragment.skipped, Asm.distance]

def openDistance : Nat := 0xffff

theorem Drafted.emitOpenJump {d : Draft} (ready : d.Ready) {jump : Nat → Asm} (h : Forward jump) :
    Drafted d (d.emitOpenJump (jump openDistance).op) (.of [jump openDistance]) :=
  writeWide ready d.line (h.op 0 _).2 (h.operand _ _) (by decide)

theorem Exactly.emitJump {β : Type} {q : Prop} {post : β → Draft → Prop} {base d : Draft}
    {f : Fragment} {jump : Nat → Asm} (h : Forward jump) {k : Nat → Build β}
    (drafted : Drafted base d f)
    (rest : ∀ d', Drafted base d' (f ++ .of [jump openDistance]) → d'.scope = d.scope →
      Exactly q post ((k (base.chunk.code.size + f.size + 1)).run d')) :
    Exactly q post ((Build.emitJump (jump openDistance).op >>= k).run d) := by
  have jumped := Drafted.emitOpenJump drafted.ready h
  have size := jumped.size
  rw [Fragment.size_of, Asm.total_cons, h.size, Asm.total_nil, drafted.size] at size
  refine Exactly.step (run_emitJump _ d) ?_
  rw [size, show base.chunk.code.size + f.size + (3 + 0) - 2 = base.chunk.code.size + f.size + 1 by
    omega]
  exact rest _ (drafted.trans jumped) rfl

theorem Exactly.emit {β : Type} {q : Prop} {post : β → Draft → Prop} {base d : Draft} {f : Fragment}
    {op : Opcode} (plain : op.operandWidth = 0) {k : Unit → Build β} (drafted : Drafted base d f)
    (rest : ∀ d', Drafted base d' (f ++ .of [.plain op]) → d'.scope = d.scope →
      Exactly q post ((k ()).run d')) :
    Exactly q post ((Build.emit op >>= k).run d) :=
  Exactly.step (run_emit op d) (rest _ (drafted.trans (.emit drafted.ready plain)) rfl)

theorem exactly_patchJump {base d : Draft} {f post : Fragment} {jump : Nat → Asm} (h : Forward jump)
    (drafted : Drafted base d (f ++ (.of [jump openDistance] ++ post))) {pos : Nat}
    (stands : pos = base.chunk.code.size + f.size + 1) :
    Exactly (post.size < 65536)
      (fun _ d' => Drafted base d' (f ++ .skipped jump post) ∧ d'.scope = d.scope)
      ((patchJump pos).run d) := by
  have size := drafted.size
  simp only [Fragment.size_append, Fragment.size_of, Asm.total_cons, h.size, Asm.total_nil] at size
  have distance : d.chunk.code.size - pos - 2 = post.size := by omega
  rw [run_patchJump, distance]
  split
  · next far => exact fun near => by simp [Draft.maxJump] at far; omega
  · next near =>
    have small : post.size < 65536 := by simp [Draft.maxJump] at near; omega
    subst stands
    exact ⟨small, drafted.patch (h.op _ _).1 (h.op 0 _).2 (h.operand _ _) small, rfl⟩

theorem exactly_emitLoop {d : Draft} (ready : d.Ready) (start : Nat) :
    Exactly (d.chunk.code.size + 3 - start < 65536)
      (fun _ d' => Drafted d d' (.of [.loop (d.chunk.code.size + 3 - start)]) ∧ d'.scope = d.scope)
      ((emitLoop start).run d) := by
  have size : (d.emit .loop).chunk.code.size = d.chunk.code.size + 1 := Array.size_push ..
  have distance : (d.emit .loop).chunk.code.size + 2 - start = d.chunk.code.size + 3 - start := by
    omega
  rw [run_emitLoop, distance]
  generalize d.chunk.code.size + 3 - start = distance
  split
  · next far => exact fun near => by simp [Draft.maxJump] at far; omega
  · next near =>
    have small : distance < 65536 := by simp [Draft.maxJump] at near; omega
    exact ⟨small, .writeWide (a := .loop distance) ready d.line rfl rfl small, rfl⟩

end StackScript
