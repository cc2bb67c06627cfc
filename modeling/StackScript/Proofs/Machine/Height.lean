import StackScript.Proofs.Machine.Symbolic

/-! Heights of the stack. Code is annotated with the height before each of its
instructions; the annotation is sound when every instruction finds the operands it needs and
hands on the height that stands at each place where it can lead. -/

namespace StackScript

/-- How many values an operation leaves in the place of those that it needs. -/
def Opcode.leaves : Opcode → Nat
  | .pop | .print | .finish | .defGlobal | .jump | .loop => 0
  | _ => 1

namespace Asm

def rise (a : Asm) (height : Nat) : Nat := height - a.op.needs + a.op.leaves

/-- Where an instruction at an offset can lead. -/
def successors (a : Asm) (offset : Nat) : List Nat :=
  match a with
  | .jump n => [offset + 3 + n]
  | .jumpFalse n => [offset + 3, offset + 3 + n]
  | .loop n => [offset + 3 - n]
  | a => [offset + a.size]

/-- What an instruction asks of its place besides operands on the stack. -/
def Apt (offset height : Nat) : Asm → Prop
  | .load v => v.kind ≠ .identifier
  | .plain op => op.operandWidth = 0 ∧ op ≠ .finish
  | .get (.slot n) | .set (.slot n) => n < height
  | .loop n => n ≤ offset + 3
  | _ => True

theorem Apt.shift {start offset height : Nat} {a : Asm} (apt : a.Apt offset height) :
    a.Apt (start + offset) height := by
  match a, apt with
  | .loop n, apt =>
    simp only [Apt] at apt ⊢
    omega
  | .load _, apt | .plain _, apt | .get (.slot _), apt | .set (.slot _), apt => exact apt
  | .define _, _ | .get (.global _), _ | .set (.global _), _ => trivial
  | .jump _, _ | .jumpFalse _, _ => trivial

theorem Apt.successors {offset height : Nat} {a : Asm} (apt : a.Apt offset height) (start : Nat) :
    a.successors (start + offset) = (a.successors offset).map (start + ·) := by
  cases a with
  | loop n =>
    simp only [Apt] at apt
    simp only [Asm.successors, List.map_cons, List.map_nil, List.cons.injEq, and_true]
    omega
  | _ => simp only [Asm.successors, List.map_cons, List.map_nil, Nat.add_assoc]

/-- An instruction at an offset is safe at a height and leads to the right ones. -/
structure Follows (heightAt : Nat → Option Nat) (offset height : Nat) (a : Asm) : Prop where
  operands : a.op.needs ≤ height
  apt : a.Apt offset height
  leads : ∀ next ∈ a.successors offset, heightAt next = some (a.rise height)

end Asm

/-- Instructions with the height of the stack before each of them. -/
abbrev Profile := List (Nat × Asm)

namespace Profile

def code (profile : Profile) : List Asm := profile.map (·.2)

def total (profile : Profile) : Nat := Asm.total profile.code

@[simp] theorem total_nil : total [] = 0 := rfl

@[simp] theorem total_cons (h : Nat) (a : Asm) (profile : Profile) :
    total ((h, a) :: profile) = a.size + total profile := by
  simp [total, code]

@[simp] theorem total_append (first rest : Profile) :
    total (first ++ rest) = total first + total rest := by
  simp [total, code]

/-- The height at an offset where an instruction begins or the code ends. -/
def heightAt (exit : Nat) : Profile → Nat → Option Nat
  | [], offset => if offset = 0 then some exit else none
  | (h, a) :: rest, offset =>
    if offset = 0 then some h
    else if offset < a.size then none
    else heightAt exit rest (offset - a.size)

/-- Every instruction, from an offset on, follows the heights. -/
def Sound (heights : Nat → Option Nat) (offset : Nat) : Profile → Prop
  | [] => True
  | (h, a) :: rest => a.Follows heights offset h ∧ Sound heights (offset + a.size) rest

variable {heights heights' : Nat → Option Nat} {offset exit : Nat} {profile first rest : Profile}

theorem sound_append : Sound heights offset (first ++ rest) ↔
    Sound heights offset first ∧ Sound heights (offset + total first) rest := by
  induction first generalizing offset with
  | nil => simp [Sound]
  | cons entry first ih =>
    obtain ⟨h, a⟩ := entry
    simp only [List.cons_append, Sound, ih, total_cons, Nat.add_assoc, and_assoc]

theorem heightAt_append_right (exit : Nat) (first rest : Profile) (offset : Nat) :
    heightAt exit (first ++ rest) (total first + offset) = heightAt exit rest offset := by
  induction first with
  | nil => simp
  | cons entry first ih =>
    obtain ⟨h, a⟩ := entry
    have positive := a.size_pos
    rw [List.cons_append, heightAt, total_cons, if_neg (by omega), if_neg (by omega), ← ih]
    congr 1
    omega

theorem heightAt_start {whole : Profile} (first rest : Profile) (split : whole = first ++ rest)
    (start : offset = total first) : heightAt exit whole offset = heightAt exit rest 0 := by
  rw [split, start, ← heightAt_append_right exit first rest 0, Nat.add_zero]

theorem heightAt_end (size : offset = total profile) : heightAt exit profile offset = some exit :=
  heightAt_start profile [] (List.append_nil _).symm size

theorem heightAt_append_left {middle h : Nat} (stands : heightAt middle first offset = some h)
    (joins : heightAt exit rest 0 = some middle) :
    heightAt exit (first ++ rest) offset = some h := by
  induction first generalizing offset with
  | nil =>
    simp only [heightAt, Option.ite_none_right_eq_some, Option.some.injEq] at stands
    obtain ⟨rfl, rfl⟩ := stands
    exact joins
  | cons entry first ih =>
    obtain ⟨h₀, a⟩ := entry
    simp only [List.cons_append, heightAt] at stands ⊢
    split
    · next zero => rwa [if_pos zero] at stands
    · next zero =>
      rw [if_neg zero] at stands
      split
      · next short => rw [if_pos short] at stands; cases stands
      · next long => rw [if_neg long] at stands; exact ih stands

theorem heightAt_cases {h : Nat} (stands : heightAt exit profile offset = some h) :
    (∃ before a after, profile = before ++ (h, a) :: after ∧ total before = offset) ∨
      (offset = total profile ∧ h = exit) := by
  induction profile generalizing offset with
  | nil =>
    simp only [heightAt, Option.ite_none_right_eq_some, Option.some.injEq] at stands
    exact .inr ⟨stands.1, stands.2.symm⟩
  | cons entry profile ih =>
    obtain ⟨h₀, a⟩ := entry
    simp only [heightAt] at stands
    split at stands
    · next zero =>
      obtain rfl : h₀ = h := Option.some.inj stands
      exact .inl ⟨[], a, profile, rfl, zero.symm⟩
    · next zero =>
      split at stands
      · cases stands
      · next long =>
        rcases ih stands with ⟨before, b, after, rfl, size⟩ | ⟨size, same⟩
        · exact .inl ⟨(h₀, a) :: before, b, after, rfl, by rw [total_cons, size]; omega⟩
        · exact .inr ⟨by rw [total_cons, ← size]; omega, same⟩

theorem heightAt_capped (exit : Nat) (profile : Profile) :
    ∃ cap, ∀ ⦃o h⦄, heightAt exit profile o = some h → h < cap := by
  induction profile with
  | nil =>
    refine ⟨exit + 1, fun o h stands => ?_⟩
    simp only [heightAt, Option.ite_none_right_eq_some, Option.some.injEq] at stands
    omega
  | cons entry profile ih =>
    obtain ⟨h₀, a⟩ := entry
    obtain ⟨cap, lower⟩ := ih
    refine ⟨max (h₀ + 1) cap, fun o h stands => ?_⟩
    simp only [heightAt] at stands
    split at stands
    · obtain rfl : h₀ = h := Option.some.inj stands
      omega
    · split at stands
      · cases stands
      · have := lower stands
        omega

theorem Sound.shift {start : Nat} (sound : Sound heights offset profile)
    (moved : ∀ ⦃o h⦄, heights o = some h → heights' (start + o) = some h) :
    Sound heights' (start + offset) profile := by
  induction profile generalizing offset with
  | nil => trivial
  | cons entry profile ih =>
    obtain ⟨h, a⟩ := entry
    obtain ⟨⟨operands, apt, leads⟩, rest⟩ := sound
    refine ⟨⟨operands, apt.shift, ?_⟩, ?_⟩
    · intro next mem
      rw [apt.successors] at mem
      obtain ⟨o, reached, rfl⟩ := List.mem_map.1 mem
      exact moved (leads o reached)
    · rw [Nat.add_assoc]
      exact ih rest

theorem Sound.part {whole : Profile} {middle : Nat} (before after : Profile)
    (split : whole = before ++ (profile ++ after)) (start : offset = total before)
    (sound : Sound (heightAt middle profile) 0 profile)
    (joins : heightAt exit after 0 = some middle) :
    Sound (heightAt exit whole) offset profile := by
  rw [split, start, ← Nat.add_zero (total before)]
  refine sound.shift fun o h stands => ?_
  rw [heightAt_append_right]
  exact heightAt_append_left stands joins

end Profile

/-- Code that takes the stack from one height to another. -/
def Balanced (code : List Asm) (entry exit : Nat) : Prop :=
  ∃ profile : Profile, profile.code = code ∧ profile.heightAt exit 0 = some entry ∧
    profile.Sound (profile.heightAt exit) 0

namespace Balanced

open Profile

variable {code code' yes no : List Asm} {entry middle exit : Nat}

theorem nil (h : Nat) : Balanced [] h h := ⟨[], rfl, rfl, trivial⟩

theorem single {a : Asm} {h : Nat} (operands : a.op.needs ≤ h) (apt : a.Apt 0 h)
    (straight : a.successors 0 = [a.size]) : Balanced [a] h (a.rise h) := by
  refine ⟨[(h, a)], rfl, rfl, ⟨operands, apt, ?_⟩, trivial⟩
  intro next mem
  rw [straight, List.mem_singleton] at mem
  subst mem
  have positive := a.size_pos
  simp only [heightAt, Nat.sub_self, Nat.lt_irrefl, if_true, if_false]
  rw [if_neg (by omega)]

theorem append (h : Balanced code entry middle) (h' : Balanced code' middle exit) :
    Balanced (code ++ code') entry exit := by
  obtain ⟨first, rfl, start, sound⟩ := h
  obtain ⟨rest, rfl, joins, sound'⟩ := h'
  refine ⟨first ++ rest, by simp [Profile.code], heightAt_append_left start joins, ?_⟩
  rw [sound_append]
  exact ⟨sound.part [] rest rfl rfl joins,
    sound'.part first [] (by simp) (Nat.zero_add _) rfl⟩

theorem skip (h : Balanced no entry entry) (positive : 0 < entry) :
    Balanced (.jumpFalse (Asm.total no) :: no) entry entry := by
  obtain ⟨ns, rfl, joins, sound⟩ := h
  let test : Profile := [(entry, .jumpFalse ns.total)]
  have enters : heightAt entry (test ++ ns) 3 = some entry :=
    (heightAt_start test ns rfl rfl).trans joins
  have leaves : heightAt entry (test ++ ns) (3 + ns.total) = some entry :=
    heightAt_end (by simp [test])
  have rise : (Asm.jumpFalse ns.total).rise entry = entry := Nat.sub_add_cancel positive
  refine ⟨test ++ ns, rfl, rfl, sound_append.2 ⟨⟨⟨positive, trivial, ?_⟩, trivial⟩, ?_⟩⟩
  · rw [rise]
    simp only [Asm.successors, Nat.zero_add, List.forall_mem_cons]
    exact ⟨enters, leaves, by simp⟩
  · exact sound.part test [] (by simp) rfl rfl

theorem choose (h : Balanced yes entry exit) (h' : Balanced no entry exit) (positive : 0 < entry) :
    Balanced (.jumpFalse (Asm.total yes + 3) :: (yes ++ .jump (Asm.total no) :: no)) entry exit := by
  obtain ⟨ys, rfl, joins, sound⟩ := h
  obtain ⟨ns, rfl, joins', sound'⟩ := h'
  let test : Profile := [(entry, .jumpFalse (ys.total + 3))]
  let jump : Profile := [(exit, .jump ns.total)]
  let before := test ++ (ys ++ jump)
  have size : total before = 3 + (ys.total + 3) := by simp [before, test, jump]
  have split : test ++ (ys ++ (jump ++ ns)) = before ++ ns := by simp [before]
  have enters : heightAt exit (test ++ (ys ++ (jump ++ ns))) 3 = some entry :=
    (heightAt_start test _ rfl rfl).trans (heightAt_append_left joins rfl)
  have enters' : heightAt exit (test ++ (ys ++ (jump ++ ns))) (3 + (ys.total + 3)) = some entry :=
    (heightAt_start before ns split size.symm).trans joins'
  have leaves : heightAt exit (test ++ (ys ++ (jump ++ ns))) (3 + ys.total + 3 + ns.total) =
      some exit := heightAt_end (by rw [split, total_append, size, Nat.add_assoc 3])
  have rise : (Asm.jumpFalse (ys.total + 3)).rise entry = entry := Nat.sub_add_cancel positive
  refine ⟨test ++ (ys ++ (jump ++ ns)), by simp [Profile.code, test, jump, total], rfl, ?_⟩
  simp only [sound_append]
  refine ⟨⟨⟨positive, trivial, ?_⟩, trivial⟩, ?_, ⟨⟨Nat.zero_le _, trivial, ?_⟩, trivial⟩, ?_⟩
  · rw [rise]
    simp only [Asm.successors, Nat.zero_add, List.forall_mem_cons]
    exact ⟨enters, enters', by simp⟩
  · exact sound.part test (jump ++ ns) rfl rfl rfl
  · simp only [Asm.successors, List.forall_mem_cons]
    exact ⟨leaves, by simp⟩
  · exact sound'.part before [] (by simp [before]) (by simp [size, test, jump, Nat.add_assoc]) rfl

theorem again (h : Balanced code entry middle) (h' : Balanced yes middle entry)
    (last : Balanced no middle exit) (positive : 0 < middle) :
    Balanced (code ++ .jumpFalse (Asm.total yes + 3) ::
      (yes ++ .loop (Asm.total code + 3 + Asm.total yes + 3) :: no)) entry exit := by
  obtain ⟨cs, rfl, joins, sound⟩ := h
  obtain ⟨ys, rfl, joins', sound'⟩ := h'
  obtain ⟨ns, rfl, joins'', sound''⟩ := last
  let test : Profile := [(middle, .jumpFalse (ys.total + 3))]
  let back : Profile := [(entry, .loop (cs.total + 3 + ys.total + 3))]
  let before := cs ++ (test ++ (ys ++ back))
  let whole := cs ++ (test ++ (ys ++ (back ++ ns)))
  have size : total before = cs.total + 3 + (ys.total + 3) := by
    simp [before, test, back, Nat.add_assoc]
  have split : whole = before ++ ns := by simp [whole, before]
  have starts : heightAt exit whole 0 = some entry := heightAt_append_left joins rfl
  have enters : heightAt exit whole (cs.total + 3) = some middle :=
    (heightAt_start (cs ++ test) (ys ++ (back ++ ns)) (by simp [whole]) (by simp [test])).trans
      (heightAt_append_left joins' rfl)
  have leaves : heightAt exit whole (cs.total + 3 + (ys.total + 3)) = some middle :=
    (heightAt_start before ns split size.symm).trans joins''
  have rise : (Asm.jumpFalse (ys.total + 3)).rise middle = middle := Nat.sub_add_cancel positive
  refine ⟨whole, by simp [Profile.code, whole, test, back, total], starts, ?_⟩
  simp only [whole, sound_append]
  refine ⟨sound.part [] _ rfl rfl rfl, ⟨⟨positive, trivial, ?_⟩, trivial⟩, ?_,
    ⟨⟨Nat.zero_le _, ?_, ?_⟩, trivial⟩, ?_⟩
  · rw [rise, Nat.zero_add]
    simp only [Asm.successors, List.forall_mem_cons]
    exact ⟨enters, leaves, by simp⟩
  · exact sound'.part (cs ++ test) (back ++ ns) (by simp) (by simp) rfl
  · simp [Asm.Apt, test, Nat.add_assoc]
  · have back : 0 + cs.total + test.total + ys.total + 3 - (cs.total + 3 + ys.total + 3) = 0 := by
      simp only [test, total_cons, total_nil, Asm.size_jumpFalse]
      omega
    simp only [Asm.successors, List.forall_mem_cons, back]
    exact ⟨starts, by simp⟩
  · exact sound''.part before [] (by simp [before]) (by simp [size, test, back, Nat.add_assoc]) rfl

end Balanced

end StackScript
