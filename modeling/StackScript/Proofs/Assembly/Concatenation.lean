import StackScript.Proofs.Assembly.Rules
import StackScript.Proofs.Parsing.Program

/-! Texts one after another. Two lists of tokens derive their trees side by side, the code of
both trees stands side by side, and they obey the rules together when their constants fit into
one pool. -/

namespace StackScript

open Fragment Grammar

def Names (pool part : List Value) : Prop := ∀ x, Value.name x ∈ part → Value.name x ∈ pool

theorem Names.intern {pool part : List Value} (h : Names pool part) (v : Value) :
    Names (intern pool v) (intern part v) ∧
      (intern pool v).length + part.length ≤ pool.length + (intern part v).length := by
  have both : Names (pool ++ [v]) (part ++ [v]) := by
    intro x mem
    rcases List.mem_append.1 mem with mem | mem
    · exact List.mem_append_left _ (h x mem)
    · exact List.mem_append_right _ mem
  cases v with
  | name x =>
    by_cases known : Value.name x ∈ part
    · simp only [StackScript.intern, if_pos known, if_pos (h x known)]
      exact ⟨h, Nat.le_refl _⟩
    · by_cases found : Value.name x ∈ pool
      · simp only [StackScript.intern, if_neg known, if_pos found, List.length_append]
        refine ⟨?_, by simp⟩
        intro y mem
        rcases List.mem_append.1 mem with mem | mem
        · exact h y mem
        · rwa [List.mem_singleton.1 mem]
      · simp only [StackScript.intern, if_neg known, if_neg found, List.length_append]
        exact ⟨both, by omega⟩
  | _ =>
    simp only [StackScript.intern, List.length_append]
    exact ⟨both, by omega⟩

theorem Names.length_internAll {pool part : List Value} (h : Names pool part) (uses : List Value) :
    (internAll pool uses).length + part.length ≤ pool.length + (internAll part uses).length := by
  induction uses generalizing pool part with
  | nil => exact Nat.le_refl _
  | cons v uses ih =>
    obtain ⟨names, grows⟩ := h.intern v
    have rest := ih names
    simp only [internAll_cons]
    omega

theorem fragmentAll_append (ds es : List Decl) (locals : List Text) :
    fragmentAll true locals (ds ++ es) = fragmentAll true locals ds ++ fragmentAll true locals es := by
  induction ds with
  | nil => simp [fragmentAll]
  | cons d ds ih => simp only [List.cons_append, fragmentAll, Decl.extend, if_true, ih, append_assoc]

theorem exprsAll_append (ds es : List Decl) : exprsAll (ds ++ es) = exprsAll ds ++ exprsAll es := by
  induction ds with
  | nil => rfl
  | cons d ds ih => simp only [List.cons_append, exprsAll, ih, List.append_assoc]

theorem blocksAll_append (ds es : List Decl) :
    blocksAll (ds ++ es) = blocksAll ds ++ blocksAll es := by
  induction ds with
  | nil => rfl
  | cons d ds ih => simp only [List.cons_append, blocksAll, ih, List.append_assoc]

theorem peakAll_append (ds es : List Decl) :
    peakAll true (ds ++ es) = max (peakAll true ds) (peakAll true es) := by
  induction ds with
  | nil => simp [peakAll]
  | cons d ds ih =>
    simp only [List.cons_append, peakAll, Decl.extend, if_true, List.length_nil, Nat.zero_add, ih]
    omega

theorem greedyAll_append (ds es : List Decl) :
    greedyAll (ds ++ es) = (greedyAll ds && greedyAll es) := by
  induction ds with
  | nil => rfl
  | cons d ds ih => simp only [List.cons_append, greedyAll, ih, Bool.and_assoc]

namespace Grammar

theorem Program.append {ts us : List Token} {ds es : List Decl} (h : Program ts ds)
    (h' : Program us es) : Program (ts ++ us) (ds ++ es) := by
  induction ds generalizing ts with
  | nil =>
    cases h
    exact h'
  | cons d ds ih =>
    cases h with
    | cons first rest =>
      rw [List.append_assoc]
      exact .cons first (ih rest)

theorem Running.takeWhile {ts : List Token} (h : Running ts) :
    ts.takeWhile (·.kind ≠ .eof) = ts := by
  have kept := @List.takeWhile_append_of_pos _ (fun t => decide (t.kind ≠ .eof)) ts []
    (by simpa [Running] using h)
  simpa using kept

theorem Derives.append {ts us : List Token} {ds es : List Decl} (h : Derives ts ds)
    (h' : Derives us es) (running : Running ts) (running' : Running us) :
    Derives (ts ++ us) (ds ++ es) := by
  obtain ⟨derived, greedy⟩ := h
  obtain ⟨derived', greedy'⟩ := h'
  rw [running.takeWhile] at derived
  rw [running'.takeWhile] at derived'
  refine ⟨?_, by rw [greedyAll_append, greedy, greedy']; rfl⟩
  rw [((running_append ts us).2 ⟨running, running'⟩).takeWhile]
  exact derived.append derived'

end Grammar

theorem Rules.append {ds es : List Decl} (h : Rules ds) (h' : Rules es)
    (room : (program ds).pool.length + (program es).pool.length ≤ Chunk.maxConstants) :
    Rules (ds ++ es) := by
  refine ⟨?_, ?_, ?_, ?_, ?_⟩
  · rw [exprsAll_append]
    exact List.forall_mem_append.2 ⟨h.literals, h'.literals⟩
  · rw [blocksAll_append]
    exact List.forall_mem_append.2 ⟨h.blocks, h'.blocks⟩
  · rw [peakAll_append]
    exact Nat.max_le.2 ⟨h.locals, h'.locals⟩
  · have grows := @Names.length_internAll (program ds).pool [] (by simp [Names])
      (fragmentAll true [] es).uses
    rw [pool_program, fragmentAll_append, uses_append, internAll_append, ← pool_program ds]
    rw [← pool_program es] at grows
    simp only [List.length_nil, Nat.add_zero] at grows
    omega
  · have jumps := h.jumps
    have jumps' := h'.jumps
    simp only [program, code_append, List.forall_mem_append] at jumps jumps' ⊢
    rw [fragmentAll_append, code_append, List.forall_mem_append]
    exact ⟨⟨jumps.1, jumps'.1⟩, jumps.2⟩

end StackScript
