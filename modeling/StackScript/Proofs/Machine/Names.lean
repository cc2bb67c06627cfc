import StackScript.Proofs.Machine.Safety

/-! Names never become values. Operators compute plain values, constants that are loaded are
no names, and everything else only moves values about. -/

namespace StackScript

/-- A value that a script can hold. -/
def Value.Plain (v : Value) : Prop := v.kind ≠ .identifier

theorem Value.plain_none : Value.none.Plain := by simp [Plain, kind]

def Globals.Plain (globals : Globals) : Prop :=
  ∀ ⦃x : Text⦄ ⦃v : Value⦄, globals[x]? = some v → v.Plain

def Computes (r : Except OperatorFault Value) : Prop := ∀ v, r = .ok v → v.Plain

namespace Computes

theorem ok {v : Value} (plain : v.Plain) : Computes (.ok v) := by
  rintro _ ⟨⟩
  exact plain

theorem error (e : OperatorFault) : Computes (.error e) := by
  rintro _ ⟨⟩

theorem map {α : Type} {f : α → Value} (plain : ∀ a, (f a).Plain) (r : Except OperatorFault α) :
    Computes (r.map f) := by
  cases r with
  | ok a => exact ok (plain a)
  | error e => exact error e

theorem numeric (verb : Verb) (ints : Int64 → Int64 → Except OperatorFault Int64)
    (floats : Float → Float → Float) (a b : Value) : Computes (Value.numeric verb ints floats a b) := by
  unfold Value.numeric
  split
  · exact map (fun n => by simp [Value.Plain, Value.kind]) _
  · split
    · exact ok (by simp [Value.Plain, Value.kind])
    · exact error _

theorem add (a b : Value) : Computes (a.add b) := by
  unfold Value.add
  split
  · exact ok (by simp [Value.Plain, Value.kind])
  · exact numeric _ _ _ a b

theorem multiply (a b : Value) : Computes (a.multiply b) := by
  unfold Value.multiply
  split
  · unfold Value.repeatString
    split
    · exact error _
    · split
      · exact error _
      · exact ok (by simp [Value.Plain, Value.kind])
  · exact numeric _ _ _ a b

theorem negate (a : Value) : Computes a.negate := by
  unfold Value.negate
  split
  · exact ok (by simp [Value.Plain, Value.kind])
  · exact ok (by simp [Value.Plain, Value.kind])
  · exact error _

theorem equality (expected : Bool) (a b : Value) : Computes (Machine.equality expected a b) :=
  map (fun _ => by simp [Value.Plain, Value.kind]) _

theorem order (less : Value → Value → Bool) (a b : Value) : Computes (Machine.order less a b) :=
  map (fun _ => by simp [Value.Plain, Value.kind]) _

end Computes

namespace Machine

structure Nameless (m : Machine) : Prop where
  stack : ∀ v ∈ m.stack, v.Plain
  globals : m.globals.Plain

def Stays : Effect → Prop
  | .next m | .print _ m | .finish m | .fault _ m => m.Nameless

namespace Nameless

variable {m : Machine} {v : Value}

theorem push (h : m.Nameless) (plain : v.Plain) : (m.push v).Nameless where
  stack := by
    simp only [Machine.push, Array.mem_push]
    rintro w (mem | rfl)
    · exact h.stack w mem
    · exact plain
  globals := h.globals

theorem drop (h : m.Nameless) : m.drop.Nameless where
  stack w mem := h.stack w (by
    have inside : w ∈ m.stack.toList.dropLast := by simpa [Machine.drop] using mem.val
    exact Array.mem_toList_iff.1 (List.dropLast_subset _ inside))
  globals := h.globals

theorem top (h : m.Nameless) : m.top.Plain := by
  unfold Machine.top
  cases back : m.stack.back? with
  | none => exact Value.plain_none
  | some v => exact h.stack v (Array.mem_of_back? back)

theorem global (h : m.Nameless) (x : Text) (plain : v.Plain) :
    ({ m with globals := m.globals.insert x v } : Machine).Nameless where
  stack := h.stack
  globals y w found := by
    simp only [Std.TreeMap.getElem?_insert] at found
    split at found
    · cases found
      exact plain
    · exact h.globals found

theorem slot (h : m.Nameless) (n : Nat) (plain : v.Plain) :
    ({ m with stack := m.stack.setIfInBounds n v } : Machine).Nameless where
  stack w mem := by
    rcases Array.mem_or_eq_of_mem_setIfInBounds mem with mem | rfl
    · exact h.stack w mem
    · exact plain
  globals := h.globals

theorem binary (h : m.Nameless) {f : Value → Value → Except OperatorFault Value}
    (computes : ∀ a b, Computes (f a b)) : Stays (m.binary f) := by
  unfold Machine.binary
  dsimp only
  split
  · next v result => exact h.drop.drop.push (computes _ _ v result)
  · exact h.drop.drop

theorem unary (h : m.Nameless) {f : Value → Except OperatorFault Value}
    (computes : ∀ a, Computes (f a)) : Stays (m.unary f) := by
  unfold Machine.unary
  dsimp only
  split
  · next v result => exact h.drop.push (computes _ v result)
  · exact h.drop

theorem select (h : m.Nameless) : Stays m.select := by
  refine h.drop.drop.drop.push ?_
  split
  · exact h.drop.top
  · exact h.top

end Nameless

end Machine

open Machine

theorem Opcode.stays {op : Opcode} {m : Machine} (h : m.Nameless) (width : op.operandWidth = 0) :
    Stays (Machine.perform {} ⟨op, 0⟩ m) := by
  have truth (b : Bool) : (Value.bool b).Plain := by simp [Value.Plain, Value.kind]
  cases op with
  | pushNone => exact h.push Value.plain_none
  | pushTrue | pushFalse => exact h.push (truth _)
  | pop | print => exact h.drop
  | finish => exact h
  | add => exact h.binary .add
  | subtract => exact h.binary fun a b => .numeric _ _ _ a b
  | multiply => exact h.binary .multiply
  | divide => exact h.binary fun a b => .numeric _ _ _ a b
  | equals | notEquals => exact h.binary (.equality _)
  | less | lessEquals | greater | greaterEquals => exact h.binary (.order _)
  | negate => exact h.unary .negate
  | not => exact h.unary fun v => .ok (truth _)
  | ternary => exact h.select
  | _ => cases width

theorem Asm.Apt.stays {a : Asm} {offset height : Nat} {m : Machine} (apt : a.Apt offset height)
    (h : m.Nameless) : Stays (a.perform m) := by
  match a, apt with
  | .load v, value => exact h.push value
  | .plain op, ⟨width, _⟩ => exact Opcode.stays h width
  | .define x, _ => exact h.drop.global x h.top
  | .get (.slot n), _ =>
    simp only [perform, getLocal]
    split
    · next v found => exact h.push (h.stack v (Array.mem_of_getElem? found))
    · exact h
  | .get (.global x), _ =>
    simp only [perform, getGlobal]
    split
    · next v found => exact h.push (h.globals found)
    · exact h
  | .set (.slot n), _ =>
    simp only [perform, setLocal]
    split
    · exact h.slot n h.top
    · exact h
  | .set (.global x), _ =>
    simp only [perform, setGlobal]
    split
    · exact h.global x h.top
    · exact h
  | .jump n, _ => exact ⟨h.stack, h.globals⟩
  | .jumpFalse n, _ =>
    simp only [perform]
    split
    · exact h
    · exact ⟨h.stack, h.globals⟩
  | .loop n, _ =>
    simp only [perform, loopBack]
    split
    · exact h
    · exact ⟨h.stack, h.globals⟩

theorem Asm.Apt.step_stays {a : Asm} {offset height : Nat} {m : Machine}
    (apt : a.Apt offset height) (h : m.Nameless) : Stays (a.step m) := by
  rcases a.step_cases m with ⟨_, step⟩ | ⟨_, step⟩ | ⟨_, step⟩ | ⟨_, step⟩
  · rw [step]
    exact h
  · rw [step]
    exact h
  · rw [step]
    exact h
  · rw [step]
    exact apt.stays ⟨h.stack, h.globals⟩

end StackScript
