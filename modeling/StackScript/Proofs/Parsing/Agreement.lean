import StackScript.Proofs.Parsing.Blame
import StackScript.Proofs.Parsing.Expression

/-! When a parser agrees with compilation along a tree. A declaration that gives up is
skipped and the parser goes on, where compilation along the tree stops; so the two agree
only up to the first fault, and after it the parser ends with a fault as well. -/

namespace StackScript

open Build Grammar

/-- However the run ends, a fault is recorded. -/
def Faulty {α : Type} : EStateM.Result GivenUp Draft α → Prop
  | .ok _ d => d.faults ≠ []
  | .error _ d => d.faults ≠ []

/-- A parser does what the tree says as long as that goes well, and is faulty otherwise. -/
def Agrees {α : Type} (parsed : EStateM.Result GivenUp Draft α) :
    EStateM.Result GivenUp Draft α → Prop
  | .ok a d => parsed = .ok a d
  | .error _ _ => Faulty parsed

theorem Takes.sound {α : Type} {ts rest : List Token} {x : Build α} {d d' : Draft} {a : α}
    (h : Takes ts x) (tokens : d.tokens = ts ++ rest) (more : rest ≠ []) (sound : d.Sound)
    (run : x.run d = .ok a d') : d'.Sound := by
  obtain ⟨_, faults, recovering, _⟩ := h tokens more run
  rwa [Draft.Sound, faults, recovering]

theorem Blames.faulty {α : Type} {x : Build α} {d : Draft} (h : Blames x) (faults : d.faults ≠ []) :
    Faulty (x.run d) := by
  have keeps := h (Draft.sound_of_faults faults)
  revert keeps
  cases x.run d with
  | ok a d' => exact fun keeps => keeps.2 faults
  | error e d' => exact id

namespace Agrees

variable {α β : Type}

theorem of_eq {x y : Build α} {d : Draft} (same : x.run d = y.run d) (blames : Blames x)
    (sound : d.Sound) : Agrees (x.run d) (y.run d) := by
  have h := blames sound
  rw [← same]
  revert h
  cases x.run d with
  | ok a d' => exact fun _ => rfl
  | error e d' => exact id

theorem bind {x y : Build α} {f g : α → Build β} {d : Draft} (first : Agrees (x.run d) (y.run d))
    (second : ∀ a d', y.run d = .ok a d' → Agrees ((f a).run d') ((g a).run d'))
    (blames : ∀ a, Blames (f a)) : Agrees ((x >>= f).run d) ((y >>= g).run d) := by
  rw [EStateM.run_bind, EStateM.run_bind]
  cases run : y.run d with
  | ok a d' =>
    rw [run] at first
    rw [show x.run d = .ok a d' from first]
    exact second a d' run
  | error e d' =>
    rw [run] at first
    change Faulty _
    cases parsed : x.run d with
    | error e d₁ =>
      rw [parsed] at first
      exact first
    | ok a d₁ =>
      rw [parsed] at first
      exact (blames a).faulty first

theorem step {x : Build α} {f g : α → Build β} {d : Draft} (takes : Takes [] x) (blames : Blames x)
    (sound : d.Sound) (second : ∀ a d', d'.tokens = d.tokens → d'.Sound →
      Agrees ((f a).run d') ((g a).run d'))
    (blames' : ∀ a, Blames (f a)) : Agrees ((x >>= f).run d) ((x >>= g).run d) := by
  refine bind (of_eq rfl blames sound) (fun a d' run => ?_) blames'
  obtain ⟨tokens, _, _⟩ := takes (List.nil_append _).symm d.tokens_ne_nil run
  exact second a d' tokens (takes.sound (List.nil_append _).symm d.tokens_ne_nil sound run)

theorem andThen {x y : Build Unit} {o : Occasion} {change : Draft → Draft} {d : Draft}
    (h : Agrees (x.run d) (y.run d)) (same : ∀ d, (change d).faults = d.faults) :
    Agrees ((Build.andThen x o change).run d) ((do y; modify change : Build Unit).run d) := by
  rw [EStateM.run_bind, run_andThen]
  cases run : y.run d with
  | ok a d' =>
    rw [run] at h
    rw [show x.run d = .ok a d' from h]
    rfl
  | error e d' =>
    rw [run] at h
    change Faulty _
    cases parsed : x.run d with
    | ok a d₁ | error e d₁ =>
      rw [parsed] at h
      show (change d₁).faults ≠ []
      rw [same]
      exact h

end Agrees

theorem Grammar.Expression.agrees {n : Nat} {ts rest : List Token} {e : Expr} {d : Draft} {t : Token}
    (h : Expression .assignment ts e) (enough : ts.length < n) (tokens : d.tokens = ts ++ t :: rest)
    (low : Level.ofOperator t.kind = .none) (plain : t.kind.isAssignment = false) :
    (expression n .assignment).run d = e.build.run d :=
  h.climbs.2 enough tokens (by rw [low]; decide) fun _ => plain

theorem run_expect_of_tokens {kind : TokenKind} {fault : SyntaxFault} {d : Draft} {t : Token}
    {ts : List Token} (tokens : d.tokens = t :: ts) (is : t.kind = kind) :
    (expect kind fault).run d = advance.run d := by
  rw [run_expect, Draft.current_of_tokens tokens, if_pos is, run_advance]

theorem Grammar.Expression.run_ended {n : Nat} {ts rest : List Token} {e : Expr} {d : Draft}
    {semicolon : Token} (h : Expression .assignment ts e) (enough : ts.length < n)
    (tokens : d.tokens = ts ++ semicolon :: rest) (kind : semicolon.kind = .semicolon)
    (fault : SyntaxFault) (x : Build Unit) :
    (do expression n .assignment; expect .semicolon fault; x : Build Unit).run d =
      (do e.build; advance; x : Build Unit).run d := by
  refine run_bind_congr (h.agrees enough tokens (by rw [kind]; rfl) (by rw [kind]; rfl)) ?_
  intro _ d' run
  obtain ⟨tokens', _, _⟩ := h.takes tokens (List.cons_ne_nil _ _) run
  exact run_bind_congr (run_expect_of_tokens tokens' kind) fun _ _ _ => rfl

end StackScript
