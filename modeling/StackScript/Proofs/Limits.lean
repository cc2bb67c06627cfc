import StackScript.Proofs.Machine.Bounds

/-! Limits only cut a run short. A limit on the instructions ends every run, and where it does not
cut a run it changes nothing; a cap on the stack is kept, and up to the instruction that finds the
stack full a higher cap makes no difference. -/

namespace StackScript.Machine

variable {σ : Type}

/-- After so many instructions of a run there comes one more that counts: it is whole and known,
whatever the later checks say of it. -/
structure Counts (host : Host σ) (p : Program) (start : Machine × σ) (n : Nat) (x : Machine × σ)
    (i : Instruction) : Prop where
  steps : Steps host p n start x
  decoded : Instruction.decode p.chunk.code x.1.ip = .ok i

/-- How a run with a limit on its instructions compares with the run without one. -/
structure CutByLimit (host : Host σ) (p : Program) (free bounded : Machine) (s : σ) (limit : Nat) :
    Prop where
  ends : ∀ fuel, limit < fuel → (run host fuel p bounded s).1 ≠ .unfinished
  whole : (¬ ∃ x i, Counts host p (free.load p, s) limit x i) →
    ∀ fuel, shown (run host fuel p bounded s) = shown (run host fuel p free s)
  cut : ∀ x i, Counts host p (free.load p, s) limit x i → ∀ fuel, limit < fuel →
    shown (run host fuel p bounded s) =
      (.failed (.locate p x.1.ip i.op.toByte .instructionLimit), x.1.globals, x.2)

/-- How a run with a cap on its stack compares with the run under a higher cap. -/
structure CutByCap (host : Host σ) (p : Program) (narrow wide : Machine) (s : σ) (cap wider : Nat) :
    Prop where
  height : ∀ n x, Steps host p n (narrow.load p, s) x → x.1.stack.size ≤ cap
  rest : ∀ fuel, (run host fuel p narrow s).2.1.stack.size ≤ cap
  agrees : ∀ n x, Steps host p n (narrow.load p, s) x →
    Steps host p n (wide.load p, s) ({ x.1 with maxStack := wider }, x.2)
  whole : (¬ ∃ n x i, Steps host p n (narrow.load p, s) x ∧ Overflows p.chunk x.1 i) →
    ∀ fuel, shown (run host fuel p narrow s) = shown (run host fuel p wide s)
  overflow : ∀ n x i, Steps host p n (narrow.load p, s) x → Overflows p.chunk x.1 i →
    x.1.stack.size = cap ∧ ∀ fuel, n < fuel → shown (run host fuel p narrow s) =
      (.failed (.locate p x.1.ip i.op.toByte (.stackOverflow cap)), x.1.globals, x.2)

variable {host : Host σ} {p : Program} {c : Chunk} {m : Machine} {s : σ} {x : Machine × σ}
  {n k l cap : Nat}

theorem shown_of_stops {r : Ending × Machine × σ} (steps : Steps host p n (m.load p, s) x)
    (stops : Stops host p x r) {fuel : Nat} (enough : n < fuel) :
    shown (run host fuel p m s) = shown r := by
  obtain ⟨rest, rfl⟩ : ∃ rest, fuel = n + (rest + 1) := ⟨fuel - n - 1, by omega⟩
  rw [shown_run, (runFrom_steps steps (rest + 1)).trans (runFrom_stops stops rest)]

section Instructions

theorem fetch_under_of_error {e : DecodeFault} (none : Instruction.decode c.code m.ip = .error e) :
    (m.under k l cap).fetch c = m.fetch c := by
  have there : Instruction.decode c.code (m.under k l cap).ip = .error e := none
  cases e <;> simp only [fetch, none, there]

theorem fetch_under_of_allowed (allowed : m.limit = 0 ∨ m.count < m.limit) (allowed' : l = 0 ∨ k < l) :
    (m.under k l m.maxStack).fetch c = m.fetch c := by
  cases decoded : Instruction.decode c.code m.ip with
  | error e => exact fetch_under_of_error decoded
  | ok i =>
    have there : Instruction.decode c.code (m.under k l m.maxStack).ip = .ok i := decoded
    have free : ¬ (decide (0 < m.limit) && decide (m.limit ≤ m.count)) = true := by grind
    have free' : ¬ (decide (0 < l) && decide (l ≤ k)) = true := by grind
    simp only [fetch, decoded, there, if_neg free]
    exact if_neg free'

theorem fetch_of_exhausted {i : Instruction} (decoded : Instruction.decode c.code m.ip = .ok i)
    (limited : 0 < m.limit) (spent : m.limit ≤ m.count) :
    m.fetch c = .refused i.op.toByte .instructionLimit := by
  simp only [fetch, decoded, limited, spent, decide_true, Bool.and_self, if_true]

theorem Steps.le_limit (steps : Steps host p n (m.load p, s) x) (limited : 0 < m.limit) :
    n ≤ m.limit := by
  rcases Nat.lt_or_ge m.limit n with spill | within
  · obtain ⟨y, first, rest⟩ := steps.split (Nat.le_of_lt spill)
    have kept := first.keeps
    obtain ⟨k, left⟩ : ∃ k, n - m.limit = k + 1 := ⟨n - m.limit - 1, by omega⟩
    rw [left] at rest
    cases rest with
    | cons step _ =>
      obtain ⟨i, fetched, -⟩ := step.effect
      obtain ⟨-, allowed, -⟩ := ready_iff.1 fetched
      rw [kept] at allowed
      change m.limit = 0 ∨ 0 + m.limit < m.limit at allowed
      omega
  · exact within

theorem Steps.fetch_limited (steps : Steps host p n (m.load p, s) x) (free : m.limit = 0)
    (before : n < l) :
    (x.1.under (0 + n) l m.maxStack).fetch p.chunk = x.1.fetch p.chunk := by
  rw [steps.keeps]
  exact fetch_under_of_allowed (.inl free) (.inr (by omega))

theorem ends_of_limited (host : Host σ) (p : Program) (s : σ) {fuel : Nat} (limited : 0 < m.limit)
    (enough : m.limit < fuel) : (run host fuel p m s).1 ≠ .unfinished := by
  intro unfinished
  rcases runFrom_cases host p fuel (m.load p, s) with ⟨y, steps, -⟩ | ⟨n, short, y, steps, stops⟩
  · exact absurd (steps.le_limit limited) (Nat.not_le.2 enough)
  · have ended := congrArg Prod.fst (shown_of_stops steps stops short)
    exact stops.ne_unfinished (ended.symm.trans unfinished)

/-- Without another instruction that counts, no later stage is affected by the limit either. -/
theorem Steps.fetch_uncounted (steps : Steps host p n (m.load p, s) x) (free : m.limit = 0)
    (none : ¬ ∃ y i, Counts host p (m.load p, s) l y i) :
    (x.1.under (0 + n) l m.maxStack).fetch p.chunk = x.1.fetch p.chunk := by
  rcases Nat.lt_or_ge n l with before | after
  · exact steps.fetch_limited free before
  · obtain ⟨y, first, rest⟩ := steps.split after
    cases decoded : Instruction.decode p.chunk.code y.1.ip with
    | ok i => exact absurd ⟨y, i, first, decoded⟩ none
    | error e =>
      -- Nothing is decoded at this stage, so the trail does not lead past it.
      generalize n - l = left at rest
      cases rest with
      | none => exact fetch_under_of_error decoded
      | cons step _ =>
        obtain ⟨i, fetched, -⟩ := step.effect
        cases decoded.symm.trans (ready_iff.1 fetched).1

variable (p m s) (write : Text → σ → Except WriteFault Unit × σ) (look : Glance → σ → σ)

theorem cut_by_limit (free : m.limit = 0) (limited : 0 < l) :
    CutByLimit (.listening write look) p m { m with limit := l } s l := by
  have start : ({ m with limit := l } : Machine).load p = (m.load p).under 0 l m.maxStack := rfl
  refine ⟨fun fuel enough => ends_of_limited _ p s limited enough, fun none fuel => ?_,
    fun x i counts fuel enough => ?_⟩
  · rw [shown_run, shown_run, start]
    exact shown_under (m.load p, s) 0 l m.maxStack fuel fun n z steps =>
      steps.fetch_uncounted free none
  · have along := counts.steps.under fun n z i before steps fetched =>
      (steps.fetch_limited free before).trans fetched
    have refused : (x.1.under (0 + l) l m.maxStack).fetch p.chunk =
        .refused i.op.toByte .instructionLimit :=
      fetch_of_exhausted counts.decoded limited (Nat.le_of_eq (Nat.zero_add l).symm)
    exact shown_of_stops along (.refused refused) enough

end Instructions

section Heights

/-- A higher cap does not matter to an instruction that does not find the stack full. -/
theorem fetch_under_of_room (fits : m.stack.size ≤ m.maxStack) (higher : m.maxStack < cap)
    (room : ∀ i, ¬ Overflows c m i) : (m.under m.count m.limit cap).fetch c = m.fetch c := by
  cases decoded : Instruction.decode c.code m.ip with
  | error e => exact fetch_under_of_error decoded
  | ok i =>
    have there : Instruction.decode c.code (m.under m.count m.limit cap).ip = .ok i := decoded
    have roomy : ¬ cap ≤ m.stack.size := by omega
    simp only [fetch, decoded, there]
    change (if (decide (0 < m.limit) && decide (m.limit ≤ m.count)) = true then _
      else if m.stack.size < i.op.needs then _
      else if (i.op.grows && decide (cap ≤ m.stack.size)) = true then _ else _) = _
    by_cases spent : (decide (0 < m.limit) && decide (m.limit ≤ m.count)) = true
    · rw [if_pos spent, if_pos spent]
    · by_cases short : m.stack.size < i.op.needs
      · rw [if_neg spent, if_neg spent, if_pos short, if_pos short]
        rfl
      · have free : ¬ (i.op.grows && decide (m.maxStack ≤ m.stack.size)) = true := by
          intro full
          obtain ⟨grows, full⟩ := Bool.and_eq_true_iff.1 full
          exact room i ⟨decoded, by grind, Nat.not_lt.1 short, grows,
            Nat.le_antisymm fits (of_decide_eq_true full)⟩
        rw [if_neg spent, if_neg spent, if_neg short, if_neg short, if_neg free,
          if_neg (by simp [roomy])]

theorem not_overflows_of_ready {i j : Instruction} (fetched : m.fetch c = .ready i) :
    ¬ Overflows c m j := by
  intro spill
  cases fetched.symm.trans spill.refused

theorem Stops.height {r : Ending × Machine × σ} (stops : Stops host p x r)
    (fits : x.1.stack.size ≤ x.1.maxStack) : r.2.1.stack.size ≤ x.1.maxStack := by
  have left {m m' : Machine} {i : Instruction} {e : Effect} (fits : m.stack.size ≤ m.maxStack)
      (fetched : m.fetch p.chunk = .ready i) (executed : m.execute p.chunk i = e)
      (same : e.machine = m') : m'.stack.size ≤ m.maxStack := by
    have low := height_execute fetched fits
    rwa [executed, same] at low
  cases stops with
  | ended fetched => exact fits
  | refused fetched => exact fits
  | finish fetched executed => exact left fits fetched executed rfl
  | fault fetched executed => exact left fits fetched executed rfl
  | write fetched executed written => exact left fits fetched executed rfl

theorem height_cleared {r : Ending × Machine × σ} (low : r.2.1.stack.size ≤ cap) :
    (cleared r).2.1.stack.size ≤ cap := by
  obtain ⟨_ | e | _, m, s⟩ := r
  · exact low
  · exact Nat.zero_le _
  · exact low

theorem height_run (host : Host σ) (p : Program) (m : Machine) (s : σ) (fuel : Nat) :
    (run host fuel p m s).2.1.stack.size ≤ m.maxStack := by
  have empty : (m.load p).stack.size ≤ (m.load p).maxStack := Nat.zero_le _
  rw [run_eq_cleared]
  refine height_cleared ?_
  rcases runFrom_cases host p fuel (m.load p, s) with ⟨y, steps, ran⟩ | ⟨n, _, y, steps, stops⟩
  · rw [ran]
    exact steps.height empty
  · have same : y.1.maxStack = m.maxStack := by
      rw [steps.keeps]
      rfl
    rw [← same]
    exact stops.height (same ▸ steps.height empty)

/-- Wherever the stack is not found full, the same is fetched under a higher cap. -/
theorem Steps.fetch_wider (steps : Steps host p n (m.load p, s) x) (higher : m.maxStack < cap)
    (room : ∀ i, ¬ Overflows p.chunk x.1 i) :
    (x.1.under (0 + n) m.limit cap).fetch p.chunk = x.1.fetch p.chunk := by
  have kept := steps.keeps
  have fits : x.1.stack.size ≤ x.1.maxStack := by
    rw [kept]
    exact steps.height (Nat.zero_le _)
  have below : x.1.maxStack < cap := by
    rw [kept]
    exact higher
  have same := fetch_under_of_room fits below room
  rw [kept] at same ⊢
  exact same

variable (p m s) (write : Text → σ → Except WriteFault Unit × σ) (look : Glance → σ → σ)

theorem cut_by_cap (higher : m.maxStack < cap) :
    CutByCap (.listening write look) p m { m with maxStack := cap } s m.maxStack cap := by
  have start : ({ m with maxStack := cap } : Machine).load p = (m.load p).under 0 m.limit cap := rfl
  refine ⟨fun n x steps => steps.height (Nat.zero_le _), fun fuel => height_run _ p m s fuel,
    fun n x steps => ?_, fun none fuel => ?_, fun n x i steps spill => ?_⟩
  · have along := steps.under fun j z i _ first fetched =>
      (first.fetch_wider higher fun _ => not_overflows_of_ready fetched).trans fetched
    rw [steps.keeps] at along ⊢
    exact along
  · rw [shown_run, shown_run, start]
    exact (shown_under (m.load p, s) 0 m.limit cap fuel fun n z steps =>
      steps.fetch_wider higher fun i spill => none ⟨n, z, i, steps, spill⟩).symm
  · have same : x.1.maxStack = m.maxStack := by
      rw [steps.keeps]
      rfl
    rw [← same]
    exact ⟨spill.full, fun fuel enough => shown_of_stops steps (.refused spill.refused) enough⟩

end Heights

/-- Limits only cut a run short, for any program and whatever the host does with what it hears. -/
theorem limits_only_cut_short (write : Text → σ → Except WriteFault Unit × σ)
    (look : Glance → σ → σ) (p : Program) (m : Machine) (s : σ) {limit cap : Int}
    (limited : 0 < limit) (capped : 1 ≤ cap) :
    CutByLimit (.listening write look) p ((m.setMaxStack cap).setLimit 0)
        ((m.setMaxStack cap).setLimit limit) s limit.toNat ∧
      ∀ bound wider : Int, cap < wider →
        CutByCap (.listening write look) p ((m.setMaxStack cap).setLimit bound)
          ((m.setMaxStack wider).setLimit bound) s cap.toNat wider.toNat := by
  refine ⟨cut_by_limit p _ s write look rfl (by omega), fun bound wider higher => ?_⟩
  have narrow : ((m.setMaxStack cap).setLimit bound).maxStack = cap.toNat :=
    if_neg (by omega)
  have wide : (m.setMaxStack wider).setLimit bound =
      { (m.setMaxStack cap).setLimit bound with maxStack := wider.toNat } := by
    simp only [setMaxStack, setLimit, if_neg (show ¬ wider < 1 by omega)]
  rw [wide, ← narrow]
  exact cut_by_cap p _ s write look (by omega)

/-- A loop that pushes in every round, under a cap of one value. With a limit of two instructions
the third is not allowed, and without a limit it finds the stack full. -/
theorem limits_only_cut_short_loop :
    ∃ (p : Program) (host : Host (List Text)), p.chunk.code = #[1, 42, 0, 4] ∧
      shown (run host 3 p ((({} : Machine).setMaxStack 1).setLimit 2) []) =
        (.failed (.locate p 0 1 .instructionLimit), ∅, []) ∧
      shown (run host 3 p ((({} : Machine).setMaxStack 1).setLimit 0) []) =
        (.failed (.locate p 0 1 (.stackOverflow 1)), ∅, []) := by
  let p : Program := ⟨[], { code := #[1, 42, 0, 4] }, #[]⟩
  let write (line : Text) (s : List Text) : Except WriteFault Unit × List Text := (.ok (), line :: s)
  let free : Machine := (({} : Machine).setMaxStack 1).setLimit 0
  let pushed : Machine := { program := some p, ip := 1, stack := #[.none], count := 1, maxStack := 1 }
  let back : Machine := { program := some p, ip := 0, stack := #[.none], count := 2, maxStack := 1 }
  obtain ⟨byLimit, byCap⟩ := limits_only_cut_short write (fun _ s => s) p {} []
    (show (0 : Int) < 2 by decide) (show (1 : Int) ≤ 1 by decide)
  have fetched : (free.load p).fetch p.chunk = .ready ⟨.pushNone, 0⟩ := by decide
  have executed : (free.load p).execute p.chunk ⟨.pushNone, 0⟩ = .next pushed := rfl
  have fetched' : pushed.fetch p.chunk = .ready ⟨.loop, 4⟩ := by decide
  have executed' : pushed.execute p.chunk ⟨.loop, 4⟩ = .next back := rfl
  have steps : Steps (.listening write fun _ s => s) p 2 (free.load p, []) (back, []) :=
    .cons (.next fetched executed) (.cons (.next fetched' executed') (.none _))
  have spill : Overflows p.chunk back ⟨.pushNone, 0⟩ := ⟨rfl, .inl rfl, by decide, rfl, rfl⟩
  exact ⟨p, .listening write fun _ s => s, rfl,
    byLimit.cut (back, []) ⟨.pushNone, 0⟩ ⟨steps, rfl⟩ 3 (by decide),
    ((byCap 0 2 (by decide)).overflow 2 (back, []) ⟨.pushNone, 0⟩ steps spill).2 3 (by decide)⟩

end StackScript.Machine
