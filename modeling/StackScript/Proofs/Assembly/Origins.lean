import StackScript.Proofs.Assembly.Spans
import StackScript.Proofs.Machine.Balance

/-! Where instructions come from. An instruction that can fail by what it computes is emitted for
one token, an operator or a name, and the span that is found for the instruction is the span of
that token. The declarations around it record spans too, but theirs are not narrower, and they
are recorded later. -/

namespace StackScript

open Asm Fragment Grammar

def Opcode.fallible : Opcode → Bool
  | .add | .subtract | .multiply | .divide | .negate | .equals | .notEquals | .less | .lessEquals
  | .greater | .greaterEquals => true
  | _ => false

def Opcode.Written (op : Opcode) (kind : TokenKind) : Prop :=
  ofBinary? kind = some op ∨ ofCompound? kind = some op ∨ kind = .minus ∧ op = .negate

namespace Asm

def Fallible : Asm → Prop
  | .plain op => op.fallible = true
  | .get (.global _) | .set (.global _) => True
  | _ => False

def Stems (t : Token) : Asm → Prop
  | .plain op => op.fallible = true → op.Written t.kind
  | .get (.global x) | .set (.global x) => t.kind = .identifier ∧ t.lexeme = x
  | _ => True

end Asm

/-- The tokens that the instructions of an expression are emitted for, one after the other. -/
def Expr.origins : Expr → List (Option Token)
  | .literal _ => [none]
  | .name t => [some t]
  | .assign t _ e => e.origins ++ [some t]
  | .compound t op e => [some t] ++ (e.origins ++ ([some op] ++ [some t]))
  | .group _ e _ => e.origins
  | .unary op e => e.origins ++ [some op]
  | .binary a op b => a.origins ++ (b.origins ++ [some op])
  | .conditional c mark a _ b => c.origins ++ (a.origins ++ (b.origins ++ [some mark]))
  | .and a _ b => a.origins ++ ([none] ++ ([none] ++ b.origins))
  | .or a _ b => a.origins ++ ([none] ++ ([none] ++ ([none] ++ b.origins)))

namespace Origins

variable (c s rest : List (Option Token))

def guarded : List (Option Token) := c ++ ([none] ++ ([none] ++ s))

def arm : List (Option Token) := guarded c s ++ ([none] ++ ([none] ++ rest))

def binding (top : Bool) : List (Option Token) := if top then [none] else []

end Origins

mutual

def Stmt.origins : Stmt → List (Option Token)
  | .print _ e _ | .expression e _ => e.origins ++ [none]
  | .branch _ c s rest => Origins.arm c.origins s.origins rest.origins
  | .loop _ c s => Origins.guarded c.origins s.origins ++ ([none] ++ [none])
  | .block _ ds _ => originsAll false ds ++ List.replicate (boundNames ds).length none

def Rest.origins : Rest → List (Option Token)
  | .done => []
  | .elif _ c s rest => Origins.arm c.origins s.origins rest.origins
  | .otherwise _ s => s.origins

def Decl.origins (top : Bool) : Decl → List (Option Token)
  | .bind _ _ _ => [none] ++ Origins.binding top
  | .bindTo _ _ _ e _ => e.origins ++ Origins.binding top
  | .statement s => s.origins

def originsAll (top : Bool) : List Decl → List (Option Token)
  | [] => []
  | d :: ds => d.origins top ++ originsAll top ds

end

/-- The instruction at an offset of a program was emitted for a token. -/
def EmittedFor (ds : List Decl) (offset : Nat) (t : Token) : Prop :=
  ∃ k, (originsAll true ds)[k]? = some (some t) ∧ total ((program ds).code.take k) = offset

/-- What an origin says of an instruction and of the span found for it. -/
def Credit (ts : List Token) (span : Option Span) (a : Asm) : Option Token → Prop
  | none => ¬ a.Fallible
  | some t => t ∈ ts ∧ span = some t.span ∧ a.Stems t

def Credits (ts : List Token) (look : Nat → Option Span) :
    Nat → List Asm → List (Option Token) → Prop
  | _, [], [] => True
  | o, a :: code, t :: origins => Credit ts (look o) a t ∧ Credits ts look (o + a.size) code origins
  | _, _, _ => False

namespace Credits

variable {ts us : List Token} {look look' : Nat → Option Span} {o o' : Nat}
  {code code' : List Asm} {origins origins' : List (Option Token)}

theorem append (h : Credits ts look o code origins)
    (h' : Credits ts look (o + total code) code' origins') :
    Credits ts look o (code ++ code') (origins ++ origins') := by
  induction code generalizing o origins with
  | nil =>
    cases origins with
    | nil => exact h'
    | cons t origins => exact h.elim
  | cons a code ih =>
    cases origins with
    | nil => exact h.elim
    | cons t origins =>
      refine ⟨h.1, ih h.2 ?_⟩
      rwa [Nat.add_assoc]

theorem transfer (h : Credits ts look o code origins) (more : ts ⊆ us)
    (same : ∀ i < total code, ∀ s, look (o + i) = some s → look' (o' + i) = some s) :
    Credits us look' o' code origins := by
  induction code generalizing o o' origins with
  | nil =>
    cases origins with
    | nil => trivial
    | cons t origins => exact h.elim
  | cons a code ih =>
    cases origins with
    | nil => exact h.elim
    | cons t origins =>
      have positive := a.size_pos
      refine ⟨?_, ih h.2 fun i inside s found => ?_⟩
      · cases t with
        | none => exact h.1
        | some t =>
          obtain ⟨mem, span, stems⟩ := h.1
          exact ⟨more mem, same 0 (by rw [total_cons]; omega) _ span, stems⟩
      · have further := same (a.size + i) (by rw [total_cons]; omega) s
        rw [← Nat.add_assoc, ← Nat.add_assoc] at further
        exact further found

theorem of_at (h : Credits ts look o code origins) {k : Nat} {a : Asm} (stands : At code k a)
    (fallible : a.Fallible) :
    ∃ t n, origins[n]? = some (some t) ∧ total (code.take n) = k ∧ t ∈ ts ∧
      look (o + k) = some t.span ∧ a.Stems t := by
  obtain ⟨before, after, rfl, rfl⟩ := stands
  induction before generalizing o origins with
  | nil =>
    cases origins with
    | nil => exact h.elim
    | cons t origins =>
      cases t with
      | none => exact absurd fallible h.1
      | some t => exact ⟨t, 0, rfl, rfl, h.1⟩
  | cons b before ih =>
    cases origins with
    | nil => exact h.elim
    | cons t origins =>
      obtain ⟨t, n, origin, place, mem, span, stems⟩ := ih h.2
      refine ⟨t, n + 1, origin, ?_, mem, ?_, stems⟩
      · rw [List.cons_append, List.take_succ_cons, total_cons, total_cons, place]
      · rw [total_cons, ← Nat.add_assoc]
        exact span

theorem length (h : Credits ts look o code origins) : origins.length = code.length := by
  induction code generalizing o origins with
  | nil =>
    cases origins with
    | nil => rfl
    | cons t origins => exact h.elim
  | cons a code ih =>
    cases origins with
    | nil => exact h.elim
    | cons t origins => rw [List.length_cons, List.length_cons, ih h.2]

end Credits

namespace SpanTable

variable {offset : Int} {entries : List SpanEntry} {best : Option SpanEntry} {b : SpanEntry}

theorem mem_of_foldl_narrower (found : entries.foldl (narrower offset) best = some b) :
    (b ∈ entries ∧ b.start ≤ offset ∧ offset < b.stop) ∨ best = some b := by
  induction entries generalizing best with
  | nil => exact .inr found
  | cons e entries ih =>
    rcases ih found with ⟨mem, holds⟩ | chosen
    · exact .inl ⟨List.mem_cons_of_mem _ mem, holds⟩
    · unfold narrower at chosen
      split at chosen
      · exact .inr chosen
      · next holds =>
        have holds : e.start ≤ offset ∧ offset < e.stop := by simpa using holds
        split at chosen
        · split at chosen
          · cases chosen
            exact .inl ⟨List.mem_cons_self, holds⟩
          · exact .inr chosen
        · cases chosen
          exact .inl ⟨List.mem_cons_self, holds⟩

theorem exists_of_find? {t : SpanTable} {span : Span} (found : t.find? offset = some span) :
    ∃ e ∈ t.toList, e.start ≤ offset ∧ offset < e.stop ∧ e.span = span := by
  obtain ⟨e, best, rfl⟩ := Option.map_eq_some_iff.1 found
  rw [← Array.foldl_toList] at best
  obtain ⟨mem, start, stop⟩ := (mem_of_foldl_narrower best).resolve_right (by simp)
  exact ⟨e, mem, start, stop, rfl⟩

end SpanTable

open SpanTable

namespace Fragment

variable {f g : Fragment} {offset : Nat} {s : Span}

/-- A span for the whole of a fragment is not narrower than those recorded before. -/
theorem spanAt_marked (h : f.Within) (span : Span) (found : f.spanAt offset = some s) :
    (f.marked span).spanAt offset = some s := by
  unfold marked
  split
  · exact found
  · unfold spanAt at found ⊢
    obtain ⟨b, best, rfl⟩ := Option.map_eq_some_iff.1 found
    have recorded : b ∈ f.marks := ((mem_of_foldl_narrower best).resolve_right (by simp)).1
    have bounds := h b recorded
    have wide : (⟨0, f.size, span⟩ : SpanEntry).extent = f.size := by simp [SpanEntry.extent]
    have extent : b.extent = b.stop - b.start := if_neg (Int.not_lt.2 bounds.1)
    have narrow : ¬ (⟨0, f.size, span⟩ : SpanEntry).extent < b.extent := by omega
    rw [List.foldl_append, best, List.foldl_cons, List.foldl_nil]
    simp only [narrower, if_neg narrow, ite_self]
    rfl

theorem exists_spanAt_marked (h : f.Within) (span : Span) (inside : offset < f.size) :
    ∃ s, (f.marked span).spanAt offset = some s := by
  cases found : f.spanAt offset with
  | some s => exact ⟨s, spanAt_marked h span found⟩
  | none =>
    refine ⟨span, ?_⟩
    have nothing : f.marks.foldl (narrower offset) none = none := Option.map_eq_none_iff.1 found
    unfold marked
    rw [if_neg (by omega), spanAt, List.foldl_append, nothing, List.foldl_cons, List.foldl_nil]
    unfold narrower
    rw [if_neg (by simp; omega)]
    rfl

theorem spanAt_blaming (a : Asm) (t : Token) : (blaming a t).spanAt 0 = some t.span := by
  have positive := a.size_pos
  have size : (of [a]).size = a.size := Nat.add_zero _
  rw [blaming, marked, if_neg (by omega), spanAt, size]
  simp only [marks_of, List.nil_append, List.foldl_cons, List.foldl_nil]
  unfold narrower
  rw [if_neg (by simp; omega)]
  rfl

end Fragment

structure Credited (ts : List Token) (f : Fragment) (origins : List (Option Token)) : Prop where
  within : f.Within
  credits : Credits ts f.spanAt 0 f.code origins

namespace Credited

variable {ts us : List Token} {c f g r s : Fragment} {o o' o'' : List (Option Token)} {a : Asm}
  {t : Token}

theorem mono (h : Credited ts f o) (more : ts ⊆ us) : Credited us f o :=
  ⟨h.within, h.credits.transfer more fun _ _ _ found => found⟩

theorem append (h : Credited ts f o) (h' : Credited ts g o') : Credited ts (f ++ g) (o ++ o') := by
  refine ⟨h.within.append h'.within, (h.credits.transfer (fun _ => id) ?_).append
    (h'.credits.transfer (fun _ => id) ?_)⟩
  · intro i inside s found
    rw [Nat.zero_add] at found ⊢
    rwa [spanAt_append_left h'.within inside]
  · intro i inside s found
    rw [Nat.zero_add] at found ⊢
    rwa [total_code, Nat.add_comm, spanAt_append_right h.within h'.within]

theorem marked (h : Credited ts f o) (span : Span) : Credited ts (f.marked span) o := by
  refine ⟨h.within.marked span, ?_⟩
  rw [code_marked]
  exact h.credits.transfer (fun _ => id) fun i _ s found => spanAt_marked h.within span found

theorem nil : Credited ts (of []) [] := ⟨within_of _, trivial⟩

theorem needing (uses : List Value) : Credited ts (needing uses) [] := ⟨within_needing _, trivial⟩

theorem plain (safe : ¬ a.Fallible) : Credited ts (of [a]) [none] := ⟨within_of _, safe, trivial⟩

theorem blaming (mem : t ∈ ts) (stems : a.Stems t) : Credited ts (blaming a t) [some t] := by
  refine ⟨within_blaming a t, ?_⟩
  rw [Fragment.blaming, code_marked]
  exact ⟨⟨mem, spanAt_blaming a t, stems⟩, trivial⟩

theorem literal (t : Token) : Credited ts (literal t) [none] := by
  refine ⟨within_literal t, ?_⟩
  unfold Fragment.literal
  split
  all_goals exact ⟨by simp [Credit, Fallible, Opcode.fallible], trivial⟩

theorem stems_locate (locals : List Text) (kind : t.kind = .identifier) :
    (Asm.get (locate t.lexeme locals)).Stems t ∧ (Asm.set (locate t.lexeme locals)).Stems t := by
  induction locals with
  | nil => exact ⟨⟨kind, rfl⟩, ⟨kind, rfl⟩⟩
  | cons x locals ih =>
    rw [locate]
    split
    · exact ⟨trivial, trivial⟩
    · exact ih

theorem get (locals : List Text) (mem : t ∈ ts) (kind : t.kind = .identifier) :
    Credited ts (get (locate t.lexeme locals) t) [some t] :=
  (needing _).append (blaming mem (stems_locate locals kind).1)

theorem set (locals : List Text) (mem : t ∈ ts) (kind : t.kind = .identifier) :
    Credited ts (Fragment.blaming (.set (locate t.lexeme locals)) t) [some t] :=
  blaming mem (stems_locate locals kind).2

theorem operation {op : Opcode} (mem : t ∈ ts) (written : op.Written t.kind) :
    Credited ts (operation (some op) t) [some t] :=
  blaming mem fun _ => written

theorem skipped (h : Credited ts f o) {jump : Nat → Asm} (safe : ∀ n, ¬ (jump n).Fallible) :
    Credited ts (skipped jump f) ([none] ++ o) :=
  (plain (safe _)).append h

theorem popping (h : Credited ts f o) : Credited ts (of [.plain .pop] ++ f) ([none] ++ o) :=
  (plain (by simp [Fallible, Opcode.fallible])).append h

theorem conjunction (h : Credited ts f o) :
    Credited ts (conjunction f) ([none] ++ ([none] ++ o)) :=
  h.popping.skipped fun _ => id

theorem disjunction (h : Credited ts f o) :
    Credited ts (disjunction f) ([none] ++ ([none] ++ ([none] ++ o))) :=
  (plain id).append (h.popping.skipped fun _ => id)

theorem guarded (h : Credited ts c o) (h' : Credited ts s o') :
    Credited ts (guarded c s) (Origins.guarded o o') :=
  h.append ((plain id).append h'.popping)

theorem arm (h : Credited ts c o) (h' : Credited ts s o') (h'' : Credited ts r o'') :
    Credited ts (arm c s r) (Origins.arm o o' o'') :=
  (h.guarded h').append (h''.popping.skipped fun _ => id)

theorem loop (h : Credited ts c o) (h' : Credited ts s o') :
    Credited ts (loop c s) (Origins.guarded o o' ++ ([none] ++ [none])) :=
  (h.guarded h').append ((plain id).append (plain (by simp [Fallible, Opcode.fallible])))

theorem pops (n : Nat) : Credited ts (pops n) (List.replicate n none) := by
  induction n with
  | zero => exact nil
  | succ n ih =>
    have one := ih.popping
    rwa [Fragment.pops, ← of_append] at one

theorem binding (top : Bool) (name : Text) :
    Credited ts (binding top name) (Origins.binding top) := by
  cases top with
  | false => exact nil
  | true => exact (needing _).append (plain id)

end Credited

namespace Grammar

theorem Expression.credited {l : Level} {ts : List Token} {e : Expr} (h : Expression l ts e)
    (locals : List Text) : Credited ts (e.fragment locals) e.origins := by
  induction h with
  | assign target _ _ ih =>
    exact (Credited.needing _).append
      ((ih.mono (by simp)).append (Credited.set locals (by simp) target))
  | compound target op _ ih =>
    obtain ⟨_, arithmetic, _⟩ := Opcode.ofCompound?_of_mem op
    rw [Expr.fragment, arithmetic]
    exact (Credited.get locals (by simp) target).append ((ih.mono (by simp)).append
      ((Credited.operation (by simp) (.inr (.inl arithmetic))).append
        (Credited.set locals (by simp) target)))
  | tighter _ _ ih => exact ih
  | conditional _ _ _ _ _ ihc iha ihb =>
    exact (ihc.mono (by simp)).append ((iha.mono fun t mem => by simp [mem]).append
      ((ihb.mono fun t mem => by simp [mem]).append (Credited.blaming (by simp) (by simp [Stems, Opcode.fallible]))))
  | or _ _ _ iha ihb => exact (iha.mono (by simp)).append (ihb.mono (by simp)).disjunction
  | and _ _ _ iha ihb => exact (iha.mono (by simp)).append (ihb.mono (by simp)).conjunction
  | binary _ op _ iha ihb =>
    obtain ⟨_, binary, _⟩ := Opcode.ofBinary?_of_mem ⟨_, op⟩
    rw [Expr.fragment, binary]
    exact (iha.mono (by simp)).append ((ihb.mono (by simp)).append
      (Credited.operation (by simp) (.inl binary)))
  | unary op _ ih =>
    refine (ih.mono (by simp)).append (Credited.blaming (by simp) ?_)
    rcases op with minus | bang
    · rw [minus]
      exact fun _ => .inr (.inr ⟨minus, rfl⟩)
    · rw [bang]
      exact fun fallible => absurd fallible (by decide)
  | literal _ => exact Credited.literal _
  | name kind => exact Credited.get locals (by simp) kind
  | group _ _ _ ih => exact ih.mono (by simp)

mutual

theorem Statement.credited {ts : List Token} {s : Stmt} (locals : List Text) :
    Statement ts s → Credited ts (s.fragment locals) s.origins
  | .print _ e _ => ((e.credited locals).mono (by simp)).append (.plain nofun)
  | .expression e _ => ((e.credited locals).mono (by simp)).append (.plain nofun)
  | .branch _ c s r _ => ((c.credited locals).mono (by simp)).arm
      ((s.credited locals).mono fun t mem => by simp [mem])
      ((r.credited locals).mono fun t mem => by simp [mem])
  | .loop _ c s => ((c.credited locals).mono (by simp)).loop ((s.credited locals).mono (by simp))
  | .block _ ds _ => ((ds.credited false locals).mono (by simp)).append (.pops _)

theorem Continuation.credited {ts : List Token} {r : Rest} (locals : List Text) :
    Continuation ts r → Credited ts (r.fragment locals) r.origins
  | .done => .nil
  | .elif _ c s r _ => ((c.credited locals).mono (by simp)).arm
      ((s.credited locals).mono fun t mem => by simp [mem])
      ((r.credited locals).mono fun t mem => by simp [mem])
  | .otherwise _ s => (s.credited locals).mono (by simp)

theorem Declaration.credited {ts : List Token} {d : Decl} (top : Bool) (locals : List Text) :
    Declaration ts d → Credited ts (d.fragment top locals) (d.origins top)
  | .bind _ _ _ => Credited.append (.plain nofun) (.binding top _)
  | .bindTo _ _ _ e _ => ((e.credited locals).mono fun t mem => by simp [mem]).append (.binding top _)
  | .statement s => s.credited locals

theorem Program.credited {ts : List Token} {ds : List Decl} (top : Bool) (locals : List Text) :
    Program ts ds → Credited ts (fragmentAll top locals ds) (originsAll top ds)
  | .nil => .nil
  | .cons d ds => (((d.credited top locals).mono (by simp)).marked _).append
      ((ds.credited top _).mono (by simp))

end

end Grammar

theorem exists_spanAt_all (top : Bool) (locals : List Text) (ds : List Decl) {offset : Nat}
    (inside : offset < (fragmentAll top locals ds).size) :
    ∃ s, (fragmentAll top locals ds).spanAt offset = some s := by
  induction ds generalizing locals offset with
  | nil => exact absurd inside (Nat.not_lt_zero _)
  | cons d ds ih =>
    have within := d.within top locals
    rw [fragmentAll] at inside ⊢
    rcases Nat.lt_or_ge offset ((d.fragment top locals).marked d.span).size with first | later
    · rw [spanAt_append_left (within_all top _ ds) first]
      rw [size_marked] at first
      exact exists_spanAt_marked within d.span first
    · obtain ⟨o, rfl⟩ : ∃ o, offset = o + ((d.fragment top locals).marked d.span).size :=
        ⟨_, (Nat.sub_add_cancel later).symm⟩
      rw [spanAt_append_right (within.marked d.span) (within_all top _ ds)]
      rw [size_append] at inside
      exact ih _ (by omega)

end StackScript
