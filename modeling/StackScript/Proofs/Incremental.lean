import StackScript.Proofs.Assembly.Concatenation
import StackScript.Proofs.Assembly.Spans
import StackScript.Proofs.Machine.Course

/-! Texts in parts. The program of two texts reports what the programs of the parts report when
they run one after the other on one machine: a part leaves nothing behind but its globals, and
its code does not depend on where it stands. -/

namespace StackScript

open Asm Config Fragment Grammar

namespace Machine

/-- What a caller learns from a run that is over. -/
structure Report where
  failure : Option (Text × Cause × Option Span)
  globals : Globals
  output : List Text

def report : Ending × Machine × List Text → Option Report
  | (.finished, m, lines) => some ⟨none, m.globals, lines⟩
  | (.failed e, m, lines) => some ⟨some (e.message, e.fault.cause, e.span), m.globals, lines⟩
  | (.unfinished, _, _) => none

/-- A program and then, if it succeeded, another one on the same machine. -/
def runBoth (fuel fuel' : Nat) (p p' : Program) (m : Machine) (lines : List Text) :
    Ending × Machine × List Text :=
  match run recorder fuel p m lines with
  | (.finished, m, lines) => run recorder fuel' p' m lines
  | r => r

def Reports (p : Program) (m : Machine) (lines : List Text) (r : Report) : Prop :=
  ∃ fuel, report (run recorder fuel p m lines) = some r

def ReportsBoth (p p' : Program) (m : Machine) (lines : List Text)
    (r : Report) : Prop :=
  ∃ fuel fuel', report (runBoth fuel fuel' p p' m lines) = some r

variable {p p' q : Program} {m m₁ : Machine} {lines lines₁ : List Text} {r : Report} {fuel : Nat}

theorem ended_of_report {x : Ending × Machine × List Text} (h : report x = some r) :
    x.1 ≠ .unfinished := by
  intro unfinished
  obtain ⟨ending, rest⟩ := x
  cases unfinished
  cases h

theorem reports_iff {x : Ending × Machine × List Text} (h : run recorder fuel p m lines = x)
    (ended : x.1 ≠ .unfinished) : Reports p m lines r ↔ report x = some r := by
  constructor
  · rintro ⟨fuel', reported⟩
    rw [← run_unique rfl h (ended_of_report reported) ended]
    exact reported
  · intro reported
    exact ⟨fuel, by rw [h, reported]⟩

theorem not_reports (endless : ∀ fuel, (run recorder fuel p m lines).1 = .unfinished) :
    ¬ Reports p m lines r := by
  rintro ⟨fuel, reported⟩
  exact ended_of_report reported (endless fuel)

theorem not_finished {e : RuntimeError}
    (h : run recorder fuel p m lines = (.failed e, m₁, lines₁)) (fuel' : Nat) :
    (run recorder fuel' p m lines).1 ≠ .finished := by
  intro finished
  cases again : run recorder fuel' p m lines with
  | mk ending rest =>
    rw [again] at finished
    cases finished
    cases run_unique again h (by simp) (by simp)

theorem reportsBoth_of_finished (h : run recorder fuel p m lines = (.finished, m₁, lines₁)) :
    ReportsBoth p p' m lines r ↔ Reports p' m₁ lines₁ r := by
  constructor
  · rintro ⟨fuel₁, fuel', reported⟩
    refine ⟨fuel', ?_⟩
    unfold runBoth at reported
    cases again : run recorder fuel₁ p m lines with
    | mk ending rest =>
      rw [again] at reported
      cases ending with
      | unfinished => cases reported
      | failed e => cases run_unique again h (by simp) (by simp)
      | finished =>
        cases run_unique again h (by simp) (by simp)
        exact reported
  · rintro ⟨fuel', reported⟩
    refine ⟨fuel, fuel', ?_⟩
    rw [runBoth, h]
    exact reported

theorem reportsBoth_of_unfinished (h : ∀ fuel, (run recorder fuel p m lines).1 ≠ .finished) :
    ReportsBoth p p' m lines r ↔ Reports p m lines r := by
  have first (fuel fuel' : Nat) : runBoth fuel fuel' p p' m lines = run recorder fuel p m lines := by
    have unfinished := h fuel
    unfold runBoth
    revert unfinished
    cases run recorder fuel p m lines with
    | mk ending rest =>
      cases ending with
      | finished => exact fun unfinished => absurd rfl unfinished
      | failed e | unfinished => exact fun _ => rfl
  simp only [ReportsBoth, first, Reports, exists_const]

end Machine

open Machine

theorem Program.Holds.find? {p : Program} {f : Fragment} (holds : p.Holds f) (offset : Nat) :
    p.spans.find? offset = f.spanAt offset := by
  rw [SpanTable.find?, ← Array.foldl_toList, holds.spans]
  rfl

/-- The code of a part stands in a larger program, whose run has come to where the part begins. -/
structure Enters (q : Program) (whole : Fragment) (c₀ : Config) (part : Fragment) (offset count : Nat)
    (c : Config) : Prop where
  has : Has whole.code offset part.code
  moves : ∃ n, Moves whole.code n c₀ (c.moved (some q) offset count)
  spans : ∀ o < part.size, whole.spanAt (o + offset) = part.spanAt o

variable {p q : Program} {whole part : Fragment} {heights : Nat → Option Nat} {m₀ m : Machine}
  {lines₀ lines : List Text} {r : Report} {offset count n : Nat} {c₁ : Config}

theorem Enters.after (enters : Enters q whole ⟨m₀.load q, lines₀⟩ part offset count ⟨m.load p, lines⟩)
    (charted : Charted part heights) (unlimited : m.limit = 0)
    (moves : Moves part.code n ⟨m.load p, lines⟩ c₁) :
    ∃ k, n ≤ k ∧ Moves whole.code k ⟨m₀.load q, lines₀⟩ (c₁.moved (some q) offset count) := by
  obtain ⟨k, before⟩ := enters.moves
  have inside : Inside heights ⟨m.load p, lines⟩ := ⟨charted.start, unlimited⟩
  exact ⟨k + n, Nat.le_add_left _ _,
    before.trans (inside.moves_moved enters.has (some q) count charted moves)⟩

theorem Enters.breaks (enters : Enters q whole ⟨m₀.load q, lines₀⟩ part offset count ⟨m.load p, lines⟩)
    (holds : p.Holds (part ++ of [.plain .finish])) (joint : q.Holds whole)
    (charted : Charted part heights) (unlimited : m.limit = 0)
    (moves : Moves part.code n ⟨m.load p, lines⟩ c₁) {a : Asm} {fault : MachineFault} {m' : Machine}
    (stands : At part.code c₁.machine.ip a) (fails : a.step c₁.machine = .fault fault m') :
    Reports q m₀ lines₀ r ↔ Reports p m lines r := by
  have inside : Inside heights ⟨m.load p, lines⟩ := ⟨charted.start, unlimited⟩
  have inside₁ := (inside.moves charted moves).1
  obtain ⟨k, _, moved⟩ := enters.after charted unlimited moves
  have broken := run_failed holds (moves.left _) (stands.left _) fails
  have elsewhere := (inside₁.follows charted stands).apt.step_moved inside₁.unlimited (some q) offset count
  rw [fails] at elsewhere
  have broken' := run_failed joint moved (enters.has.inner stands) elsewhere
  rw [reports_iff broken (by simp), reports_iff broken' (by simp)]
  have span : q.spans.find? (c₁.machine.ip + offset : Nat) = p.spans.find? c₁.machine.ip := by
    rw [joint.find?, holds.find?, enters.spans _ stands.lt_total,
      spanAt_append_left (within_of _) stands.lt_total]
  simp only [report, RuntimeError.locate, RuntimeError.message, Config.moved, Machine.moved, span]

theorem Enters.endless (enters : Enters q whole ⟨m₀.load q, lines₀⟩ part offset count ⟨m.load p, lines⟩)
    (holds : p.Holds (part ++ of [.plain .finish])) (joint : q.Holds whole)
    (charted : Charted part heights) (unlimited : m.limit = 0)
    (goes : ∀ n, ∃ c₁, Moves part.code n ⟨m.load p, lines⟩ c₁) :
    (∀ fuel, (run recorder fuel p m lines).1 = .unfinished) ∧
      (Reports q m₀ lines₀ r ↔ Reports p m lines r) := by
  have unfinished (fuel : Nat) : (run recorder fuel p m lines).1 = .unfinished := by
    obtain ⟨c₁, moves⟩ := goes fuel
    exact run_unfinished holds (moves.left _) (Nat.le_refl _)
  have unfinished' (fuel : Nat) : (run recorder fuel q m₀ lines₀).1 = .unfinished := by
    obtain ⟨c₁, moves⟩ := goes fuel
    obtain ⟨k, enough, moved⟩ := enters.after charted unlimited moves
    exact run_unfinished joint moved enough
  exact ⟨unfinished, iff_of_false (not_reports unfinished') (not_reports unfinished)⟩

/-- Where a part is the last one, the larger program does all that the part does. -/
theorem Enters.reports (enters : Enters q whole ⟨m₀.load q, lines₀⟩ part offset count ⟨m.load p, lines⟩)
    (holds : p.Holds (part ++ of [.plain .finish])) (joint : q.Holds whole)
    (charted : Charted part heights) (unlimited : m.limit = 0)
    (last : At whole.code (part.size + offset) (.plain .finish)) :
    Reports q m₀ lines₀ r ↔ Reports p m lines r := by
  have inside : Inside heights ⟨m.load p, lines⟩ := ⟨charted.start, unlimited⟩
  cases inside.fate charted with
  | @completes n c₁ moves ends empty =>
    have inside₁ := (inside.moves charted moves).1
    obtain ⟨k, _, moved⟩ := enters.after charted unlimited moves
    have finished := run_finished holds (moves.left _) (ends ▸ .here part.code _ [])
      inside₁.unlimited
    rw [← ends] at last
    have finished' := run_finished joint moved last inside₁.unlimited
    rw [reports_iff finished (by simp), reports_iff finished' (by simp)]
    rfl
  | breaks moves stands fails => exact enters.breaks holds joint charted unlimited moves stands fails
  | endless goes => exact (enters.endless holds joint charted unlimited goes).2

theorem reports_joint {p' : Program} {f g : Fragment} {heights' : Nat → Option Nat}
    (holds : p.Holds (f ++ of [.plain .finish])) (holds' : p'.Holds (g ++ of [.plain .finish]))
    (joint : q.Holds (f ++ (g ++ of [.plain .finish]))) (within : f.Within) (within' : g.Within)
    (charted : Charted f heights) (charted' : Charted g heights') (unlimited : m.limit = 0) :
    Reports q m lines r ↔ ReportsBoth p p' m lines r := by
  have behind := within'.append (within_of [.plain .finish])
  have enters : Enters q (f ++ (g ++ of [.plain .finish])) ⟨m.load q, lines⟩ f 0 0 ⟨m.load p, lines⟩ :=
    ⟨⟨[], _, rfl, rfl⟩, ⟨0, .none _⟩, fun o short => spanAt_append_left behind short⟩
  have inside : Inside heights ⟨m.load p, lines⟩ := ⟨charted.start, unlimited⟩
  cases inside.fate charted with
  | @completes n c₁ moves ends empty =>
    have inside₁ := (inside.moves charted moves).1
    obtain ⟨k, _, moved⟩ := enters.after charted unlimited moves
    have finished := run_finished holds (moves.left _) (ends ▸ .here f.code _ []) inside₁.unlimited
    rw [reportsBoth_of_finished finished]
    have enters' : Enters q (f ++ (g ++ of [.plain .finish])) ⟨m.load q, lines⟩ g f.size
        c₁.machine.count ⟨(pass (.plain .finish) c₁.machine).load p', c₁.lines⟩ := by
      refine ⟨⟨f.code, _, rfl, rfl⟩, ⟨k, ?_⟩, fun o short => ?_⟩
      · have same : c₁.moved (some q) 0 0 = Config.moved (some q) f.size c₁.machine.count
            ⟨(pass (.plain .finish) c₁.machine).load p', c₁.lines⟩ := by
          simp [Config.moved, Machine.moved, Machine.load, resetState, Asm.pass, ends, empty]
        rwa [same] at moved
      · rw [spanAt_append_right within behind, spanAt_append_left (within_of _) short]
    refine enters'.reports holds' joint charted' inside₁.unlimited ?_
    have last := At.here (f.code ++ g.code) (.plain .finish) []
    rw [total_append, Nat.add_comm, List.append_assoc] at last
    exact last
  | breaks moves stands fails =>
    have broken := run_failed holds (moves.left _) (stands.left _) fails
    rw [reportsBoth_of_unfinished (not_finished broken)]
    exact enters.breaks holds joint charted unlimited moves stands fails
  | endless goes =>
    obtain ⟨unfinished, same⟩ := enters.endless holds joint charted unlimited goes
    rw [reportsBoth_of_unfinished (by simp [unfinished])]
    exact same

theorem Program.Holds.size_constants {ds : List Decl} (holds : p.Holds (program ds)) :
    p.chunk.constants.size = (program ds).pool.length := by
  rw [← Array.length_toList, holds.pool]

/-- Texts that compile by themselves, and whose constants have room in one pool, compile together,
and the program of both reports exactly what the programs of the parts report in turn. -/
theorem parts_report_as_whole {file : Text} {first second : List Token} {p p' : Program}
    (compiled : compileTokens file first = .ok p) (compiled' : compileTokens file second = .ok p')
    (running : Running first) (running' : Running second)
    (room : p.chunk.constants.size + p'.chunk.constants.size ≤ Chunk.maxConstants) :
    ∃ q, compileTokens file (first ++ second) = .ok q ∧
      ∀ m : Machine, m.limit = 0 → ∀ r, Reports q m [] r ↔ ReportsBoth p p' m [] r := by
  obtain ⟨ds, derived⟩ := exists_derives compiled
  obtain ⟨es, derived'⟩ := exists_derives compiled'
  have along := derived.compiled file
  have along' := derived'.compiled file
  rw [compiled] at along
  rw [compiled'] at along'
  obtain ⟨rules, _, holds⟩ := along
  obtain ⟨rules', _, holds'⟩ := along'
  rw [holds.size_constants, holds'.size_constants] at room
  have together := (derived.append derived' running running').compiled file
  cases whole : compileTokens file (first ++ second) with
  | error faults =>
    rw [whole] at together
    exact absurd (rules.append rules' room) together
  | ok q =>
    rw [whole] at together
    obtain ⟨_, _, joint⟩ := together
    rw [program, fragmentAll_append, Fragment.append_assoc] at joint
    obtain ⟨heights, charted⟩ := derived.charted
    obtain ⟨heights', charted'⟩ := derived'.charted
    refine ⟨q, rfl, fun m unlimited r => ?_⟩
    exact reports_joint holds holds' joint (within_all true [] ds) (within_all true [] es) charted
      charted' unlimited

/-- A variable of `let x = true;` is there for `print x;`. -/
theorem parts_report_as_whole_variable :
    ∃ first second p p' q,
      first = [⟨.kwLet, utf8 "let", {}⟩, ⟨.identifier, utf8 "x", {}⟩, ⟨.assign, utf8 "=", {}⟩,
        ⟨.kwTrue, utf8 "true", {}⟩, ⟨.semicolon, utf8 ";", {}⟩] ∧
      second = [⟨.kwPrint, utf8 "print", {}⟩, ⟨.identifier, utf8 "x", {}⟩,
        ⟨.semicolon, utf8 ";", {}⟩] ∧
      compileTokens [] first = .ok p ∧ compileTokens [] second = .ok p' ∧
      compileTokens [] (first ++ second) = .ok q ∧
      (∀ r, Reports q {} [] r ↔ ReportsBoth p p' {} [] r) ∧
      Reports q {} [] ⟨none, (∅ : Globals).insert (utf8 "x") (.bool true), [utf8 "true\n"]⟩ := by
  obtain ⟨p, compiled⟩ : ∃ p, compileTokens [] [⟨.kwLet, utf8 "let", {}⟩,
    ⟨.identifier, utf8 "x", {}⟩, ⟨.assign, utf8 "=", {}⟩, ⟨.kwTrue, utf8 "true", {}⟩,
    ⟨.semicolon, utf8 ";", {}⟩] = .ok p := ⟨_, rfl⟩
  obtain ⟨p', compiled'⟩ : ∃ p, compileTokens [] [⟨.kwPrint, utf8 "print", {}⟩,
    ⟨.identifier, utf8 "x", {}⟩, ⟨.semicolon, utf8 ";", {}⟩] = .ok p := ⟨_, rfl⟩
  have sizes : p.chunk.constants.size + p'.chunk.constants.size = 2 := by
    cases compiled
    cases compiled'
    rfl
  obtain ⟨q, whole, same⟩ := parts_report_as_whole compiled compiled' (by simp) (by simp)
    (by rw [sizes]; decide)
  refine ⟨_, _, p, p', q, rfl, rfl, compiled, compiled', whole, same {} rfl, ?_⟩
  rw [same {} rfl]
  cases compiled
  cases compiled'
  exact ⟨3, 3, rfl⟩

end StackScript
