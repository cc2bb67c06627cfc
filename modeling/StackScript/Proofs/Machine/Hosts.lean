import StackScript.Proofs.Machine.Shift
import StackScript.Proofs.Machine.Trail

/-! Runs and what surrounds them. A run leaves true what each write and each look of its host
leaves true. Of its host it learns nothing but how its lines are answered, and of its program it sees
the code and the constants only; so two runs of the same code whose lines are answered alike hand
over the same lines and come to the same end, whatever their hosts and their tables are. A run could
also be made to go on, after a line, with a machine that the host holds; where the host holds the
machine that wrote the line this makes no difference. -/

namespace StackScript

variable {σ τ : Type}

structure Host.Keeps (host : Host σ) (P : σ → Prop) : Prop where
  write (m : Machine) (line : Text) {s : σ} : P s → P (host.write m line s).2
  trace (p : Program) (m : Machine) (i : Instruction) {s : σ} : P s → P (host.trace p m i s)

abbrev Handed := Text × Except WriteFault Unit

/-- The host, which also notes down what is handed over to it. -/
def Host.noting (host : Host σ) : Host (σ × List Handed) where
  write m line s :=
    let (answer, after) := host.write m line s.1
    (answer, after, s.2 ++ [(line, answer)])
  trace p m i s := (host.trace p m i s.1, s.2)

def AnsweredAlike (t u : List Handed) : Prop :=
  ∀ (n : Nat) (a b : Handed), t[n]? = some a → u[n]? = some b → a.2 = b.2

theorem AnsweredAlike.head {a b : Handed} {t u : List Handed} (h : AnsweredAlike (a :: t) (b :: u)) :
    a.2 = b.2 := h 0 a b rfl rfl

theorem AnsweredAlike.tail {a b : Handed} {t u : List Handed} (h : AnsweredAlike (a :: t) (b :: u)) :
    AnsweredAlike t u := fun n x y left right => h (n + 1) x y left right

namespace Machine

variable {host : Host σ} {host' : Host τ} {p : Program} {n : Nat}

section Keeping

variable {P : σ → Prop} {x y : Machine × σ} {r : Ending × Machine × σ}

theorem Step.keeps (step : Step host p x y) (keeps : host.Keeps P) (h : P x.2) : P y.2 := by
  cases step with
  | next => exact keeps.trace _ _ _ h
  | @print m m' s s' i line _ _ written =>
    have kept := keeps.write m' line (keeps.trace p m i h)
    rwa [written] at kept

theorem Steps.leaves (steps : Steps host p n x y) (keeps : host.Keeps P) (h : P x.2) : P y.2 := by
  induction steps with
  | none => exact h
  | cons step _ ih => exact ih (step.keeps keeps h)

theorem Stops.keeps (stops : Stops host p x r) (keeps : host.Keeps P) (h : P x.2) : P r.2.2 := by
  cases stops with
  | ended | refused => exact h
  | finish | fault => exact keeps.trace _ _ _ h
  | @write m m' s s' i line e _ _ written =>
    have kept := keeps.write m' line (keeps.trace p m i h)
    rwa [written] at kept

theorem runFrom_keeps (keeps : host.Keeps P) (fuel : Nat) (m : Machine) {s : σ} (h : P s) :
    P (runFrom host p fuel m s).2.2 := by
  rcases runFrom_cases host p fuel (m, s) with ⟨y, steps, ran⟩ | ⟨n, _, y, steps, stops⟩
  · rw [ran]
    exact steps.leaves keeps h
  · exact stops.keeps keeps (steps.leaves keeps h)

theorem run_keeps (keeps : host.Keeps P) (fuel : Nat) (m : Machine) {s : σ} (h : P s) :
    P (run host fuel p m s).2.2 := by
  have kept := runFrom_keeps (p := p) keeps fuel (m.load p) h
  rw [run_eq_cleared]
  revert kept
  generalize runFrom host p fuel (m.load p) s = r
  obtain ⟨_ | _ | _, _, _⟩ := r
  all_goals exact id

end Keeping

/-- What is on the way of a run, in a program and in another one of the same code. -/
structure SameCode (p p' : Program) : Prop where
  code : p.chunk.code = p'.chunk.code
  constants : p.chunk.constants = p'.chunk.constants

theorem SameCode.refl (p : Program) : SameCode p p := ⟨rfl, rfl⟩

theorem SameCode.fetch {p' : Program} (same : SameCode p p') (m : Machine) (q : Option Program) :
    (m.moved q 0 0).fetch p'.chunk = m.fetch p.chunk := by
  unfold Machine.fetch
  rw [same.code]
  rfl

theorem SameCode.execute {p' : Program} (same : SameCode p p') (i : Instruction) (m : Machine)
    (q : Option Program) :
    (m.moved q 0 0).execute p'.chunk i = (m.execute p.chunk i).map (moved q 0 0) := by
  have related : (m.execute p.chunk i).Related (fun m m' => m' = m.moved q 0 0)
      ((m.moved q 0 0).execute p'.chunk i) :=
    (congruence_moved q 0 0).execute i same.constants rfl rfl
  exact related.eq_map

/-- The ends of two runs, of which each tells the place in its own program. -/
inductive EndsAlike (p p' : Program) : Ending → Ending → Prop where
  | finished : EndsAlike p p' .finished .finished
  | unfinished : EndsAlike p p' .unfinished .unfinished
  | failed (offset : Nat) (op : UInt8) (fault : MachineFault) :
      EndsAlike p p' (.failed (.locate p offset op fault)) (.failed (.locate p' offset op fault))
  | raised (e : RuntimeError) : EndsAlike p p' (.failed e) (.failed e)

theorem EndsAlike.eq {r r' : Ending} (h : EndsAlike p p r r') : r = r' := by
  cases h with
  | finished | unfinished | failed | raised => rfl

theorem endsAlike_write (p p' : Program) (offset : Nat) (e : WriteFault) :
    EndsAlike p p' (.failed (writeError p offset e)) (.failed (writeError p' offset e)) := by
  cases e with
  | message text => exact .failed _ _ _
  | failure e => exact .raised e

theorem noting_write {m : Machine} {line : Text} {s s' : σ} {answer : Except WriteFault Unit}
    (written : host.write m line s = (answer, s')) (notes : List Handed) :
    host.noting.write m line (s, notes) = (answer, s', notes ++ [(line, answer)]) := by
  simp only [Host.noting, written]

theorem runFrom_noting (host : Host σ) (host' : Host τ) {p p' : Program} (code : SameCode p p')
    (q q' : Option Program) (fuel : Nat) (m : Machine) (s : σ) (s' : τ) :
    let r := runFrom host p fuel (m.moved q 0 0) s
    let r' := runFrom host' p' fuel (m.moved q' 0 0) s'
    ∃ t t', (∀ notes, runFrom host.noting p fuel (m.moved q 0 0) (s, notes) =
        (r.1, r.2.1, r.2.2, notes ++ t)) ∧
      (∀ notes, runFrom host'.noting p' fuel (m.moved q' 0 0) (s', notes) =
        (r'.1, r'.2.1, r'.2.2, notes ++ t')) ∧
      (AnsweredAlike t t' → t = t' ∧ EndsAlike p p' r.1 r'.1 ∧
        ∃ last : Machine, r.2.1 = last.moved q 0 0 ∧ r'.2.1 = last.moved q' 0 0) := by
  induction fuel generalizing m s s' with
  | zero =>
    exact ⟨[], [], by simp [runFrom], by simp [runFrom], fun _ => ⟨rfl, .unfinished, m, rfl, rfl⟩⟩
  | succ fuel ih =>
    dsimp only [runFrom]
    rw [(SameCode.refl p).fetch, code.fetch]
    cases m.fetch p.chunk with
    | ended => exact ⟨[], [], by simp, by simp, fun _ => ⟨rfl, .finished, m, rfl, rfl⟩⟩
    | refused op fault => exact ⟨[], [], by simp, by simp, fun _ => ⟨rfl, .failed _ _ _, m, rfl, rfl⟩⟩
    | ready i =>
      dsimp only
      rw [(SameCode.refl p).execute, code.execute]
      cases m.execute p.chunk i with
      | next m' => exact ih m' (host.trace p (m.moved q 0 0) i s) (host'.trace p' (m.moved q' 0 0) i s')
      | finish m' =>
        exact ⟨[], [], by simp [Host.noting, Effect.map], by simp [Host.noting, Effect.map],
          fun _ => ⟨rfl, .finished, m', rfl, rfl⟩⟩
      | fault fault m' =>
        exact ⟨[], [], by simp [Host.noting, Effect.map], by simp [Host.noting, Effect.map],
          fun _ => ⟨rfl, .failed _ _ _, m', rfl, rfl⟩⟩
      | print line m' =>
        have traced (notes : List Handed) : host.noting.trace p (m.moved q 0 0) i (s, notes) =
            (host.trace p (m.moved q 0 0) i s, notes) := rfl
        have traced' (notes : List Handed) : host'.noting.trace p' (m.moved q' 0 0) i (s', notes) =
            (host'.trace p' (m.moved q' 0 0) i s', notes) := rfl
        dsimp only [Effect.map]
        -- Both hand over the line; if it is not answered alike, nothing more is claimed.
        rcases written : host.write (m'.moved q 0 0) line (host.trace p (m.moved q 0 0) i s) with
          ⟨e | _, s₁⟩ <;>
          rcases written' : host'.write (m'.moved q' 0 0) line
            (host'.trace p' (m.moved q' 0 0) i s') with ⟨e' | _, s₁'⟩ <;>
          obtain ⟨t, t', rest, rest', same⟩ := ih m' s₁ s₁' <;>
          simp only [traced, traced', noting_write written, noting_write written']
        · refine ⟨[(line, .error e)], [(line, .error e')], fun _ => rfl, fun _ => rfl, fun alike => ?_⟩
          cases alike.head
          exact ⟨rfl, endsAlike_write p p' _ e, m', rfl, rfl⟩
        · refine ⟨[(line, .error e)], (line, .ok ()) :: t', fun _ => rfl, fun notes => ?_, fun alike => ?_⟩
          · exact (rest' _).trans (by simp)
          · cases alike.head
        · refine ⟨(line, .ok ()) :: t, [(line, .error e')], fun notes => ?_, fun _ => rfl, fun alike => ?_⟩
          · exact (rest _).trans (by simp)
          · cases alike.head
        · refine ⟨(line, .ok ()) :: t, (line, .ok ()) :: t', fun notes => ?_, fun notes => ?_,
            fun alike => ?_⟩
          · exact (rest _).trans (by simp)
          · exact (rest' _).trans (by simp)
          · obtain ⟨rfl, ends⟩ := same alike.tail
            exact ⟨rfl, ends⟩

def handed (host : Host σ) (fuel : Nat) (p : Program) (m : Machine) (s : σ) : List Handed :=
  (run host.noting fuel p m (s, [])).2.2.2

/-- Where the answer to a line hangs on its number only, this is how the lines of a run are answered. -/
theorem answer_of_handed (answers : Nat → Except WriteFault Unit) (P : Nat → σ → Prop)
    (write : ∀ n m line s, P n s →
      (host.write m line s).1 = answers n ∧ P (n + 1) (host.write m line s).2)
    (trace : ∀ n p m i s, P n s → P n (host.trace p m i s)) {fuel : Nat} {m : Machine} {s : σ}
    (h : P 0 s) {a : Handed} (nth : (handed host fuel p m s)[n]? = some a) : a.2 = answers n := by
  have keeps : host.noting.Keeps fun x : σ × List Handed =>
      P x.2.length x.1 ∧ ∀ (n : Nat) (a : Handed), x.2[n]? = some a → a.2 = answers n := by
    refine ⟨fun m line x before => ?_, fun p m i x before => ⟨trace _ p m i x.1 before.1, before.2⟩⟩
    obtain ⟨answered, after⟩ := write _ m line x.1 before.1
    simp only [Host.noting, List.length_append, List.length_singleton]
    refine ⟨after, fun n a nth => ?_⟩
    rw [List.getElem?_append] at nth
    split at nth
    · exact before.2 n a nth
    · next later =>
      obtain ⟨last, rfl⟩ : n - x.2.length = 0 ∧ (line, (host.write m line x.1).1) = a := by
        simpa [List.getElem?_singleton] using nth
      obtain rfl : n = x.2.length := by omega
      exact answered
  exact (run_keeps (s := (s, [])) keeps fuel m ⟨h, by simp⟩).2 n a nth

theorem answeredAlike_of_taken {p' : Program} (taken : ∀ m line s, (host.write m line s).1 = .ok ())
    (taken' : ∀ m line s, (host'.write m line s).1 = .ok ()) (fuel : Nat) (m : Machine) (s : σ) (s' : τ) :
    AnsweredAlike (handed host fuel p m s) (handed host' fuel p' m s') := by
  intro n a b left right
  have first := answer_of_handed (fun _ => .ok ()) (fun _ _ => True)
    (fun _ m line s _ => ⟨taken m line s, trivial⟩) (fun _ _ _ _ _ => id) trivial left
  have second := answer_of_handed (fun _ => .ok ()) (fun _ _ => True)
    (fun _ m line s _ => ⟨taken' m line s, trivial⟩) (fun _ _ _ _ _ => id) trivial right
  exact first.trans second.symm

theorem run_alike {p' : Program} (code : SameCode p p') {fuel : Nat} {m : Machine} {s : σ} {s' : τ}
    (alike : AnsweredAlike (handed host fuel p m s) (handed host' fuel p' m s')) :
    handed host fuel p m s = handed host' fuel p' m s' ∧
      EndsAlike p p' (run host fuel p m s).1 (run host' fuel p' m s').1 ∧
      ∃ last : Machine, (run host fuel p m s).2.1 = last.moved (some p) 0 0 ∧
        (run host' fuel p' m s').2.1 = last.moved (some p') 0 0 := by
  obtain ⟨t, t', noted, noted', same⟩ :=
    runFrom_noting host host' code (some p) (some p') fuel m.resetState s s'
  have loaded (p : Program) : m.load p = m.resetState.moved (some p) 0 0 := rfl
  simp only [← loaded] at noted noted' same
  have notes : handed host fuel p m s = t := by
    rw [handed, run_eq_cleared, noted, List.nil_append]
    rcases (runFrom host p fuel (m.load p) s).1 with _ | _ | _
    all_goals rfl
  have notes' : handed host' fuel p' m s' = t' := by
    rw [handed, run_eq_cleared, noted', List.nil_append]
    rcases (runFrom host' p' fuel (m.load p') s').1 with _ | _ | _
    all_goals rfl
  rw [notes, notes'] at alike ⊢
  obtain ⟨lines, ends, last, left, right⟩ := same alike
  refine ⟨lines, ?_⟩
  rw [run_eq_cleared, run_eq_cleared]
  revert ends left right
  generalize runFrom host p fuel (m.load p) s = r, runFrom host' p' fuel (m.load p') s' = r'
  obtain ⟨ending, m, s⟩ := r
  obtain ⟨ending', m', s'⟩ := r'
  rintro ends rfl rfl
  cases ends with
  | finished => exact ⟨.finished, last, rfl, rfl⟩
  | unfinished => exact ⟨.unfinished, last, rfl, rfl⟩
  | failed offset op fault => exact ⟨.failed offset op fault, { last with stack := #[] }, rfl, rfl⟩
  | raised e => exact ⟨.raised e, { last with stack := #[] }, rfl, rfl⟩

theorem run_eq_of_answeredAlike {fuel : Nat} {m : Machine} {s : σ} {s' : τ}
    (alike : AnsweredAlike (handed host fuel p m s) (handed host' fuel p m s')) :
    handed host fuel p m s = handed host' fuel p m s' ∧
      (run host fuel p m s).1 = (run host' fuel p m s').1 ∧
      (run host fuel p m s).2.1 = (run host' fuel p m s').2.1 := by
  obtain ⟨lines, ends, last, left, right⟩ := run_alike (.refl p) alike
  exact ⟨lines, ends.eq, left.trans right.symm⟩

/-- A run that goes on, after each line, with the machine that its surroundings hold then. -/
def runShared (host : Host σ) (held : σ → Machine) (p : Program) : (fuel : Nat) → Machine → σ →
    Ending × Machine × σ
  | 0, m, s => (.unfinished, m, s)
  | fuel + 1, m, s =>
    match m.fetch p.chunk with
    | .ended => (.finished, m, s)
    | .refused op fault => (.failed (.locate p m.ip op fault), m, s)
    | .ready i =>
      let s := host.trace p m i s
      let offset := m.ip
      match m.execute p.chunk i with
      | .next m => runShared host held p fuel m s
      | .finish m => (.finished, m, s)
      | .fault f m => (.failed (.locate p offset i.op.toByte f), m, s)
      | .print line m =>
        match host.write m line s with
        | (.ok _, s) => runShared host held p fuel (held s) s
        | (.error e, s) => (.failed (writeError p offset e), held s, s)

/-- Where the machine that wrote a line is held behind it, sharing it makes no difference. -/
theorem runShared_eq {held : σ → Machine} {P : σ → Prop} (keeps : host.Keeps P)
    (same : ∀ m line s, P s → held (host.write m line s).2 = m) (fuel : Nat) (m : Machine) {s : σ}
    (h : P s) : runShared host held p fuel m s = runFrom host p fuel m s := by
  induction fuel generalizing m s with
  | zero => rfl
  | succ fuel ih =>
    unfold runShared runFrom
    cases m.fetch p.chunk with
    | ended | refused => rfl
    | ready i =>
      have traced := keeps.trace p m i h
      dsimp only
      cases m.execute p.chunk i with
      | next m' => exact ih m' traced
      | finish | fault => rfl
      | print line m' =>
        have kept := keeps.write m' line traced
        have still := same m' line _ traced
        revert kept still
        dsimp only
        generalize host.write m' line (host.trace p m i s) = written
        obtain ⟨_ | _, s'⟩ := written
        · rintro _ rfl
          rfl
        · rintro kept rfl
          exact ih _ kept

end Machine

end StackScript
