import StackScript.Proofs.Machine.Names

/-! Compiled code never goes wrong internally. The heights of the stack are known at every
place that a run can come to, and with them every step finds its operands, stays inside the
code, and ends with an empty stack. -/

namespace StackScript

open Asm Fragment Grammar

/-- Heights of the stack at the places of code that ends with an empty one. -/
structure Charted (body : Fragment) (heights : Nat → Option Nat) : Prop where
  start : heights 0 = some 0
  places : ∀ ⦃o h⦄, heights o = some h →
    (∃ a, At body.code o a ∧ a.Follows heights o h) ∨ (o = body.size ∧ h = 0)
  capped : ∃ cap, ∀ ⦃o h⦄, heights o = some h → h < cap

theorem Profile.Sound.follows {heights : Nat → Option Nat} {before after : Profile} {h : Nat}
    {a : Asm} (sound : Sound heights 0 (before ++ (h, a) :: after)) :
    a.Follows heights before.total h := by
  have inner := (sound_append.1 sound).2.1
  rwa [Nat.zero_add] at inner

theorem Balanced.charted {body : Fragment} (balanced : Balanced body.code 0 0) :
    ∃ heights, Charted body heights := by
  obtain ⟨profile, code, start, sound⟩ := balanced
  refine ⟨profile.heightAt 0, start, fun o h stands => ?_, profile.heightAt_capped 0⟩
  rcases Profile.heightAt_cases stands with ⟨before, a, after, rfl, rfl⟩ | ⟨rfl, rfl⟩
  · refine .inl ⟨a, ⟨before.code, Profile.code after, ?_, rfl⟩, sound.follows⟩
    simp [← code, Profile.code]
  · exact .inr ⟨by rw [Fragment.size, ← code]; rfl, rfl⟩

theorem Grammar.Derives.charted {tokens : List Token} {ds : List Decl} (h : Derives tokens ds) :
    ∃ heights, Charted (fragmentAll true [] ds) heights :=
  (balanced_all true [] ds h.1.formed).charted

namespace Machine

inductive Visits (p : Program) (start : Machine) : Machine → Prop where
  | start : Visits p start start
  | step {m m' : Machine} {i : Instruction} : Visits p start m → m.fetch p.chunk = .ready i →
      (m.execute p.chunk i = .next m' ∨ ∃ line, m.execute p.chunk i = .print line m') →
      Visits p start m'

/-- A machine on which nothing can go wrong that is not a fault of the script. -/
structure Secure (p : Program) (heights : Nat → Option Nat) (m : Machine) : Prop where
  height : heights m.ip = some m.stack.size
  nameless : m.Nameless
  inside : m.fetch p.chunk ≠ .ended
  fetched : ∀ ⦃op fault⦄, m.fetch p.chunk = .refused op fault → ¬ fault.Internal
  executed : ∀ ⦃i fault m'⦄, m.fetch p.chunk = .ready i → m.execute p.chunk i = .fault fault m' →
    ¬ fault.Internal
  finished : ∀ ⦃i⦄, m.fetch p.chunk = .ready i → i.op = .finish → m.stack = #[]
  ended : ∀ ⦃i m'⦄, m.fetch p.chunk = .ready i → m.execute p.chunk i = .finish m' → m'.stack = #[]
  stays : ∀ ⦃i⦄, m.fetch p.chunk = .ready i → Stays (m.execute p.chunk i)

variable {p : Program} {body : Fragment} {heights : Nat → Option Nat} {m start : Machine}

/-- What a known height says about the next step. -/
structure Steady (heights : Nat → Option Nat) (m : Machine) (a : Asm) : Prop where
  goes : ∀ ⦃m'⦄, a.step m = .next m' ∨ (∃ line, a.step m = .print line m') →
    heights m'.ip = some m'.stack.size
  fails : ∀ ⦃fault m'⦄, a.step m = .fault fault m' → ¬ fault.Internal
  stays : m.Nameless → Stays (a.step m)
  empty : a.op = .finish → m.stack = #[]
  ends : ∀ ⦃m'⦄, a.step m = .finish m' → m'.stack = #[]

theorem steady_of_follows {a : Asm} (follows : a.Follows heights m.ip m.stack.size) :
    Steady heights m a := by
  have keeps := follows.step
  refine ⟨?_, ?_, follows.apt.step_stays, ?_, ?_⟩
  · rintro m' (step | ⟨line, step⟩)
    · rwa [step] at keeps
    · rwa [step] at keeps
  · intro fault m' step
    rwa [step] at keeps
  · intro last
    match a, follows.apt with
    | .plain op, ⟨_, goes⟩ => exact absurd last goes
    | .get (.slot _), _ | .set (.slot _), _ | .get (.global _), _ | .set (.global _), _ => cases last
  · intro m' step
    rw [step] at keeps
    exact keeps.elim

theorem steady_finish (empty : m.stack.size = 0) : Steady heights m (.plain .finish) := by
  have nothing : m.stack = #[] := Array.eq_empty_of_size_eq_zero empty
  rcases (Asm.plain .finish).step_cases m with ⟨_, step⟩ | ⟨few, _⟩ | ⟨full, _⟩ | ⟨_, step⟩
  · refine ⟨?_, ?_, ?_, fun _ => nothing, ?_⟩
    · rintro m' (goes | ⟨line, goes⟩) <;> cases step.symm.trans goes
    · intro fault m' fails
      cases step.symm.trans fails
      exact id
    · intro nameless
      rw [step]
      exact nameless
    · intro m' ends
      cases step.symm.trans ends
  · exact absurd few (Nat.not_lt_zero _)
  · exact absurd full.1 (by decide)
  · have finish : (Asm.plain .finish).step m = .finish (pass (.plain .finish) m) := step
    refine ⟨?_, ?_, ?_, fun _ => nothing, ?_⟩
    · rintro m' (goes | ⟨line, goes⟩) <;> cases finish.symm.trans goes
    · intro fault m' fails
      cases finish.symm.trans fails
    · intro nameless
      rw [finish]
      exact ⟨nameless.stack, nameless.globals⟩
    · intro m' ends
      cases finish.symm.trans ends
      exact nothing

theorem place (charted : Charted body heights) (height : heights m.ip = some m.stack.size) :
    ∃ a, At (body ++ of [.plain .finish]).code m.ip a ∧ Steady heights m a := by
  rcases charted.places height with ⟨a, stands, follows⟩ | ⟨last, empty⟩
  · exact ⟨a, stands.left _, steady_of_follows follows⟩
  · refine ⟨.plain .finish, ?_, steady_finish empty⟩
    rw [last]
    exact .here body.code _ []

theorem secure (holds : p.Holds (body ++ of [.plain .finish])) (charted : Charted body heights)
    (height : heights m.ip = some m.stack.size) (nameless : m.Nameless) : Secure p heights m := by
  obtain ⟨a, stands, steady⟩ := place charted height
  refine ⟨height, nameless, ?_, ?_, ?_, ?_, ?_, ?_⟩
  all_goals
    rcases fetch_at holds stands with ⟨n, fetched, executed⟩ | ⟨fault, refused, stopped⟩
  · simp [fetched]
  · simp [refused]
  · simp [fetched]
  · intro op fault' same
    cases refused.symm.trans same
    exact steady.fails stopped
  · intro i fault m' same fails
    cases fetched.symm.trans same
    exact steady.fails (executed.symm.trans fails)
  · simp [refused]
  · intro i same last
    cases fetched.symm.trans same
    exact steady.empty last
  · simp [refused]
  · intro i m' same ends
    cases fetched.symm.trans same
    exact steady.ends (executed.symm.trans ends)
  · simp [refused]
  · intro i same
    cases fetched.symm.trans same
    rw [executed]
    exact steady.stays nameless
  · simp [refused]

theorem Secure.step (holds : p.Holds (body ++ of [.plain .finish])) (charted : Charted body heights)
    {m' : Machine} {i : Instruction} (h : Secure p heights m) (fetched : m.fetch p.chunk = .ready i)
    (goes : m.execute p.chunk i = .next m' ∨ ∃ line, m.execute p.chunk i = .print line m') :
    Secure p heights m' := by
  obtain ⟨a, stands, steady⟩ := place charted h.height
  rcases fetch_at holds stands with ⟨n, fetched', executed⟩ | ⟨fault, refused, _⟩
  · cases fetched.symm.trans fetched'
    rw [executed] at goes
    refine secure holds charted (steady.goes goes) ?_
    have stays := steady.stays h.nameless
    rcases goes with step | ⟨line, step⟩
    · rwa [step] at stays
    · rwa [step] at stays
  · cases fetched.symm.trans refused

theorem Visits.secure (holds : p.Holds (body ++ of [.plain .finish]))
    (charted : Charted body heights) (first : Secure p heights start) (visits : Visits p start m) :
    Secure p heights m := by
  induction visits with
  | start => exact first
  | step _ fetched goes ih => exact ih.step holds charted fetched goes

/-- How a run may end. Only a host can bring in a failure that is not the script's. -/
def Sane {σ : Type} (host : Host σ) : Ending × Machine × σ → Prop
  | (.unfinished, m, _) => m.Nameless
  | (.finished, m, _) => m.Nameless ∧ m.stack = #[]
  | (.failed e, m, _) => m.Nameless ∧
    (e.fault.Internal → ∃ m line s, (host.write m line s).1 = .error (.failure e))

theorem Secure.run {σ : Type} (holds : p.Holds (body ++ of [.plain .finish]))
    (charted : Charted body heights) (host : Host σ) (fuel : Nat) (h : Secure p heights m) (s : σ) :
    Sane host (runFrom host p fuel m s) := by
  induction fuel generalizing m s with
  | zero => exact h.nameless
  | succ fuel ih =>
    rw [runFrom]
    cases fetched : m.fetch p.chunk with
    | ended => exact absurd fetched h.inside
    | refused op fault => exact ⟨h.nameless, fun internal => absurd internal (h.fetched fetched)⟩
    | ready i =>
      have stays := h.stays fetched
      cases executed : m.execute p.chunk i with
      | next m' =>
        simp only [executed]
        exact ih (h.step holds charted fetched (.inl executed)) _
      | finish m' =>
        rw [executed] at stays
        simp only [executed]
        exact ⟨stays, h.ended fetched executed⟩
      | fault fault m' =>
        rw [executed] at stays
        simp only [executed]
        exact ⟨stays, fun internal => absurd internal (h.executed fetched executed)⟩
      | print line m' =>
        rw [executed] at stays
        simp only [executed]
        cases written : host.write m' line (host.trace p m i s) with
        | mk result s' =>
          cases result with
          | ok _ => exact ih (h.step holds charted fetched (.inr ⟨line, executed⟩)) _
          | error e =>
            refine ⟨stays, fun internal => ?_⟩
            cases e with
            | message text => exact absurd internal id
            | failure e => exact ⟨m', line, _, congrArg Prod.fst written⟩

end Machine

open Machine

theorem Program.Holds.initial {p : Program} {body : Fragment} {heights : Nat → Option Nat}
    (holds : p.Holds (body ++ of [.plain .finish])) (charted : Charted body heights) {m : Machine}
    (plain : m.globals.Plain) : Secure p heights (m.load p) :=
  secure holds charted charted.start ⟨by simp [Machine.load, resetState], plain⟩

/-- Compiled code never goes wrong internally: there is one height of the stack for each
place in it, and every machine of every run is secure. -/
theorem compiled_code_is_secure {file : Text} {tokens : List Token} {p : Program}
    (compiled : compileTokens file tokens = .ok p) :
    ∃ heights : Nat → Option Nat, ∀ m : Machine, m.globals.Plain →
      (∀ m', Visits p (m.load p) m' → Secure p heights m') ∧
      ∀ {σ : Type} (host : Host σ) (fuel : Nat) (s : σ), Sane host (run host fuel p m s) := by
  obtain ⟨ds, derived⟩ := exists_derives compiled
  have along := derived.compiled file
  rw [compiled] at along
  obtain ⟨heights, charted⟩ := derived.charted
  refine ⟨heights, fun m plain => ?_⟩
  have first := along.2.2.initial charted plain
  refine ⟨fun m' visits => visits.secure along.2.2 charted first, fun host fuel s => ?_⟩
  have sane := first.run along.2.2 charted host fuel s
  unfold run
  revert sane
  cases runFrom host p fuel (m.load p) s with
  | mk ending rest =>
    cases ending with
    | finished | unfinished => exact id
    | failed e => exact fun sane => ⟨⟨by simp, sane.1.globals⟩, sane.2⟩

/-- The program of `print true;`, on a machine of its own. -/
theorem compiled_code_is_secure_print :
    ∃ p heights, compileTokens [] [⟨.kwPrint, utf8 "print", {}⟩, ⟨.kwTrue, utf8 "true", {}⟩,
        ⟨.semicolon, utf8 ";", {}⟩] = .ok p ∧
      ∀ m', Visits p (({} : Machine).load p) m' → Secure p heights m' := by
  obtain ⟨heights, secure⟩ := @compiled_code_is_secure [] [⟨.kwPrint, utf8 "print", {}⟩,
    ⟨.kwTrue, utf8 "true", {}⟩, ⟨.semicolon, utf8 ";", {}⟩] _ rfl
  exact ⟨_, heights, rfl, (secure {} (by simp [Globals.Plain])).1⟩

end StackScript
