import StackScript.Proofs.Attribution
import StackScript.Proofs.Drafting.Lines
import StackScript.Proofs.FaultOrder
import StackScript.Proofs.Lexing.Windows

/-! Every place that is given for a source lies in it: the places of its faults, and the places
that the tables of its program give for an instruction. -/

namespace StackScript

open Build Grammar Machine

section

variable {S : Span → Prop} {line : Int}

theorem Grammar.Program.grows {ts rest : List Token} {ds : List Decl} {d d' : Draft}
    (joins : ∀ a b : Span, S a → S b → S (a.join b)) (h : Grammar.Program ts ds)
    (known : ∀ t ∈ ts, t.From S line) (ordered : Ordered ts) (tokens : d.tokens = ts ++ rest)
    (more : rest ≠ []) (tabled : d.Tabled S) (run : (buildAll ds).run d = .ok () d') :
    d.Grows S line d' := by
  cases h with
  | nil =>
    cases run
    exact .of_same tabled rfl rfl rfl
  | cons first rest =>
    obtain ⟨known, known'⟩ := List.forall_mem_append.1 known
    obtain ⟨ordered, ordered', _⟩ := List.pairwise_append.1 ordered
    have marked := first.marked joins known ordered fun within => first.starts joins within ordered
    have starts := marked.bind fun _ => rest.lines joins known' ordered'
    exact (starts.grows tokens more tabled run).1

theorem tabled_of_compileTokens {file : Text} {tokens : List Token} {p : StackScript.Program}
    (compiled : compileTokens file tokens = .ok p) (joins : ∀ a b : Span, S a → S b → S (a.join b))
    (known : ∀ t ∈ withEnd file tokens, t.From S line) (ordered : Ordered (withEnd file tokens)) :
    p.file = file ∧ ∃ d : Draft, d.Tabled S ∧ p.chunk = d.chunk ∧ p.spans = d.spans := by
  obtain ⟨ds, d, derived, run, rfl⟩ := compileTokens_eq_ok.1 compiled
  obtain ⟨closing, rest, split, kind⟩ := withEnd_eq_append file tokens
  have start := Draft.start_tokens file tokens
  have blank : (Draft.start file tokens).Tabled S := by
    obtain ⟨_, _, fresh⟩ := Draft.exists_start file tokens
    rw [fresh]
    exact ⟨.nil, by simp, by simp⟩
  rw [split] at known ordered start
  obtain ⟨inner, outer⟩ := List.forall_mem_append.1 known
  have grown := derived.1.grows joins inner (List.pairwise_append.1 ordered).1 start (by simp) blank run
  obtain ⟨tokens', _⟩ := derived.1.takes start (by simp) run
  have previous : d.advance.previous.From S line := by
    rw [d.advance_previous, Draft.current_of_tokens tokens']
    exact outer closing List.mem_cons_self
  have read : d.Grows S line d.advance := .advance grown.tabled
  exact ⟨rfl, _, (read.trans (.emit read.tabled previous .finish)).tabled, rfl, rfl⟩

end

end StackScript
