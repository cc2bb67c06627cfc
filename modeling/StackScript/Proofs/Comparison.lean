import Mathlib.Order.Defs.Unbundled
import StackScript.Value.Comparison

/-! Laws of equality and order for the values that are not floats. Two such values are equal when
they are the same once truth values count as integers, and what can be ordered at all has a rank: a
number by itself, a string by its length. Every law follows from these two descriptions. -/

namespace StackScript.Value

/-- The values that are compared without floats. -/
def Discrete (v : Value) : Prop := v.kind ∈ [Kind.none, .bool, .int, .string]

def Equatable (a b : Value) : Prop := equatable a b = .ok ()

def Comparable (a b : Value) : Prop := comparable a b = .ok ()

/-- A value with a truth value taken for the integer it counts as. -/
def counted : Value → Value
  | .bool b => .int (if b then 1 else 0)
  | v => v

inductive Scale where
  | number
  | length
deriving DecidableEq

structure Rank where
  scale : Scale
  position : Int

def rank? (v : Value) : Option Rank :=
  match v.counted with
  | .int n => some ⟨.number, n.toInt⟩
  | .string s => some ⟨.length, s.length⟩
  | _ => Option.none

def SameRank (a b : Value) : Prop := a.rank?.isSome ∧ a.rank? = b.rank?

structure Ranks (a b : Value) (x y : Rank) : Prop where
  left : a.rank? = some x
  right : b.rank? = some y
  scale : x.scale = y.scale

section

variable {a b c : Value} {x y z : Rank}

theorem Discrete.form (h : a.Discrete) :
    a = .none ∨ (∃ b, a = .bool b) ∨ (∃ n, a = .int n) ∨ ∃ s, a = .string s := by
  cases a <;> simp_all [Discrete, kind]

theorem toInt_count (b : Bool) : (if b then 1 else 0 : Int64).toInt = if b then 1 else 0 := by
  cases b <;> rfl

theorem ranked_eq (ha : a.Discrete) (hb : b.Discrete) :
    ranked a b = a.rank?.bind fun x => b.rank?.bind fun y =>
      if x.scale = y.scale then some (.ints x.position y.position) else Option.none := by
  rcases ha.form with rfl | ⟨_, rfl⟩ | ⟨_, rfl⟩ | ⟨_, rfl⟩ <;>
    rcases hb.form with rfl | ⟨_, rfl⟩ | ⟨_, rfl⟩ | ⟨_, rfl⟩
  all_goals simp [ranked, toInt?, rank?, counted, toInt_count]

theorem equal_iff (ha : a.Discrete) (hb : b.Discrete) :
    equal a b = true ↔ a.counted = b.counted := by
  rcases ha.form with rfl | ⟨_, rfl⟩ | ⟨_, rfl⟩ | ⟨_, rfl⟩ <;>
    rcases hb.form with rfl | ⟨_, rfl⟩ | ⟨_, rfl⟩ | ⟨_, rfl⟩
  all_goals simp [equal, related, ranked, toInt?, counted, ← Int64.toInt_inj, toInt_count]

theorem rank?_of_equal (ha : a.Discrete) (hb : b.Discrete) (h : equal a b = true) :
    a.rank? = b.rank? := by
  unfold rank?
  rw [(equal_iff ha hb).1 h]

theorem Ranks.symm (h : Ranks a b x y) : Ranks b a y x := ⟨h.right, h.left, h.scale.symm⟩

theorem Ranks.ranked (ha : a.Discrete) (hb : b.Discrete) (h : Ranks a b x y) :
    ranked a b = some (.ints x.position y.position) := by
  rw [ranked_eq ha hb, h.left, h.right]
  exact if_pos h.scale

theorem comparable_iff (ha : a.Discrete) (hb : b.Discrete) :
    Comparable a b ↔ ∃ x y, Ranks a b x y := by
  have some_iff : Comparable a b ↔ (ranked a b).isSome := by
    unfold Comparable comparable
    split <;> simp_all
  rw [some_iff]
  constructor
  · rw [ranked_eq ha hb]
    cases left : a.rank? with
    | none => simp
    | some x =>
      cases right : b.rank? with
      | none => simp
      | some y =>
        dsimp only [Option.bind_some]
        split
        · next scale => exact fun _ => ⟨x, y, left, right, scale⟩
        · simp
  · rintro ⟨x, y, h⟩
    rw [h.ranked ha hb]
    rfl

theorem equatable_iff (ha : a.Discrete) (hb : b.Discrete) :
    Equatable a b ↔ a = .none ∨ b = .none ∨ Comparable a b := by
  rcases ha.form with rfl | ⟨_, rfl⟩ | ⟨_, rfl⟩ | ⟨_, rfl⟩ <;>
    rcases hb.form with rfl | ⟨_, rfl⟩ | ⟨_, rfl⟩ | ⟨_, rfl⟩
  all_goals simp [Equatable, equatable, Comparable, comparable, ranked, toInt?]

theorem comparable_symm (ha : a.Discrete) (hb : b.Discrete) (h : Comparable a b) :
    Comparable b a := by
  obtain ⟨x, y, ranks⟩ := (comparable_iff ha hb).1 h
  exact (comparable_iff hb ha).2 ⟨y, x, ranks.symm⟩

theorem equatable_symm (ha : a.Discrete) (hb : b.Discrete) (h : Equatable a b) :
    Equatable b a := by
  rw [equatable_iff hb ha]
  rcases (equatable_iff ha hb).1 h with none | none | comparable
  · exact .inr (.inl none)
  · exact .inl none
  · exact .inr (.inr (comparable_symm ha hb comparable))

theorem Discrete.eq_none (ha : a.Discrete) (h : a.rank? = Option.none) : a = .none := by
  rcases ha.form with rfl | ⟨_, rfl⟩ | ⟨_, rfl⟩ | ⟨_, rfl⟩
  · rfl
  all_goals simp [rank?, counted] at h

theorem equatable_of_equal (ha : a.Discrete) (hb : b.Discrete) (h : equal a b = true) :
    Equatable a b := by
  have same := rank?_of_equal ha hb h
  rw [equatable_iff ha hb]
  cases rank : a.rank? with
  | none => exact .inl (ha.eq_none rank)
  | some x => exact .inr (.inr ((comparable_iff ha hb).2 ⟨x, x, rank, same ▸ rank, rfl⟩))

theorem equal_none (ha : a.Discrete) : equal a .none = true ↔ a = .none := by
  rcases ha.form with rfl | ⟨_, rfl⟩ | ⟨_, rfl⟩ | ⟨_, rfl⟩
  all_goals simp [equal, related, ranked, toInt?]

theorem equal_numbers {m n : Int} (ha : a.toInt? = some m) (hb : b.toInt? = some n) :
    equal a b = true ↔ m = n := by
  cases a <;> cases ha
  all_goals
    cases b <;> cases hb
    all_goals simp [equal, related, ranked, toInt?]

theorem exists_ranks (ha : a.Discrete) (hb : b.Discrete) (hc : c.Discrete) (h : Comparable a b)
    (h' : Comparable b c) : ∃ x y z, Ranks a b x y ∧ Ranks b c y z ∧ Ranks a c x z := by
  obtain ⟨x, y, ranks⟩ := (comparable_iff ha hb).1 h
  obtain ⟨y', z, ranks'⟩ := (comparable_iff hb hc).1 h'
  obtain rfl : y = y' := Option.some.inj (ranks.right.symm.trans ranks'.left)
  exact ⟨x, y, z, ranks, ranks', ranks.left, ranks'.right, ranks.scale.trans ranks'.scale⟩

theorem comparable_trans (ha : a.Discrete) (hb : b.Discrete) (hc : c.Discrete) (h : Comparable a b)
    (h' : Comparable b c) : Comparable a c := by
  obtain ⟨x, _, z, _, _, ranks⟩ := exists_ranks ha hb hc h h'
  exact (comparable_iff ha hc).2 ⟨x, z, ranks⟩

section

variable {ints : Int → Int → Bool} {floats : Float → Float → Bool}

/-- Relations between values are relations between the positions of their ranks. -/
theorem related_eq (ha : a.Discrete) (hb : b.Discrete) (h : Ranks a b x y) :
    related ints floats a b = ints x.position y.position := by
  rw [related, h.ranked ha hb]

/-- Between values that can be ordered, what is contrary for integers is contrary. -/
theorem related_not {ints' : Int → Int → Bool} {floats' : Float → Float → Bool} (ha : a.Discrete)
    (hb : b.Discrete) (h : Comparable a b) (contrary : ∀ m n, ints m n = !ints' m n) :
    related ints floats a b = !related ints' floats' a b := by
  obtain ⟨x, y, ranks⟩ := (comparable_iff ha hb).1 h
  rw [related_eq ha hb ranks, related_eq ha hb ranks]
  exact contrary _ _

theorem related_of_incomparable (h : ¬ Comparable a b) : related ints floats a b = false := by
  unfold related
  split
  · next found => exact absurd (by simp [Comparable, comparable, found]) h
  · next found => exact absurd (by simp [Comparable, comparable, found]) h
  · rfl

theorem related_congr (ha : a.Discrete) (hb : b.Discrete) (hc : c.Discrete)
    (h : equal a b = true) :
    related ints floats a c = related ints floats b c ∧
      related ints floats c a = related ints floats c b := by
  have same := rank?_of_equal ha hb h
  have from_a : ranked a c = ranked b c := by rw [ranked_eq ha hc, ranked_eq hb hc, same]
  have to_a : ranked c a = ranked c b := by rw [ranked_eq hc ha, ranked_eq hc hb, same]
  exact ⟨by rw [related, related, from_a], by rw [related, related, to_a]⟩

end

theorem less_iff (ha : a.Discrete) (hb : b.Discrete) (h : Ranks a b x y) :
    less a b = true ↔ x.position < y.position := by
  rw [less, related_eq ha hb h, decide_eq_true_eq]

theorem comparable_of_less (h : less a b = true) : Comparable a b := by
  refine Classical.byContradiction fun incomparable => ?_
  rw [less, related_of_incomparable incomparable] at h
  cases h

theorem less_trans (ha : a.Discrete) (hb : b.Discrete) (hc : c.Discrete) (h : less a b = true)
    (h' : less b c = true) : less a c = true := by
  obtain ⟨x, y, z, ab, bc, ac⟩ :=
    exists_ranks ha hb hc (comparable_of_less h) (comparable_of_less h')
  rw [less_iff ha hb ab] at h
  rw [less_iff hb hc bc] at h'
  rw [less_iff ha hc ac]
  exact Int.lt_trans h h'

theorem less_irrefl (ha : a.Discrete) : ¬ less a a = true := by
  intro h
  obtain ⟨x, y, ranks⟩ := (comparable_iff ha ha).1 (comparable_of_less h)
  obtain rfl : x = y := Option.some.inj (ranks.left.symm.trans ranks.right)
  exact Int.lt_irrefl _ ((less_iff ha ha ranks).1 h)

theorem isStrictWeakOrder_less (ha : a.Discrete) :
    IsStrictWeakOrder { v : Value // v.Discrete ∧ Comparable a v } fun u v => less u v = true where
  irrefl := fun ⟨_, hu, _⟩ => less_irrefl hu
  trans := fun ⟨_, hu, _⟩ ⟨_, hv, _⟩ ⟨_, hw, _⟩ => less_trans hu hv hw
  incomp_trans := by
    rintro ⟨u, hu, au⟩ ⟨v, hv, av⟩ ⟨w, hw, aw⟩ ⟨uv, vu⟩ ⟨vw, wv⟩
    have orders := comparable_trans hu ha hv (comparable_symm ha hu au) av
    have orders' := comparable_trans hv ha hw (comparable_symm ha hv av) aw
    obtain ⟨x, y, z, xy, yz, xz⟩ := exists_ranks hu hv hw orders orders'
    dsimp only at *
    rw [less_iff hu hv xy] at uv
    rw [less_iff hv hu xy.symm] at vu
    rw [less_iff hv hw yz] at vw
    rw [less_iff hw hv yz.symm] at wv
    rw [less_iff hu hw xz, less_iff hw hu xz.symm]
    omega

end

structure EqualityLaws (a b c : Value) : Prop where
  refl : equal a a = true
  symm : equal a b = true → equal b a = true
  trans : equal a b = true → equal b c = true → equal a c = true
  none : equal a .none = true ↔ a = .none
  numbers : ∀ m n, a.toInt? = some m → b.toInt? = some n → (equal a b = true ↔ m = n)
  equatable : equal a b = true → Equatable a b
  equatable_symm : Equatable a b → Equatable b a
  comparable_symm : Comparable a b → Comparable b a
  comparable_trans : Comparable a b → Comparable b c → Comparable a c
  equatable_of_comparable : Comparable a b → Equatable a b

/-- The laws of order, for three values. What stands before or behind, or at the same place, does so
alone; what is not ordered stands in no relation at all. -/
structure OrderLaws (a b c : Value) : Prop where
  weak : IsStrictWeakOrder { v : Value // v.Discrete ∧ Comparable a v } fun u v => less u v = true
  one : Comparable a b →
    less a b = true ∧ greater a b = false ∧ ¬ SameRank a b ∨
    less a b = false ∧ greater a b = true ∧ ¬ SameRank a b ∨
    less a b = false ∧ greater a b = false ∧ SameRank a b
  greater_eq : greater a b = less b a
  lessEqual_eq : Comparable a b → lessEqual a b = !greater a b
  greaterEqual_eq : Comparable a b → greaterEqual a b = !less a b
  congr : equal a b = true → less a c = less b c ∧ less c a = less c b ∧
    greater a c = greater b c ∧ greater c a = greater c b
  incomparable : ¬ Comparable a b → less a b = false ∧ lessEqual a b = false ∧
    greater a b = false ∧ greaterEqual a b = false
  numbers : ∀ m n, a.toInt? = some m → b.toInt? = some n → lessEqual a b = true →
    lessEqual b a = true → equal a b = true
  strings : ∀ s t, a = .string s → b = .string t →
    ((lessEqual a b = true ∧ lessEqual b a = true) ↔ s.length = t.length)

section

variable {a b c : Value}

theorem equalityLaws (ha : a.Discrete) (hb : b.Discrete) (hc : c.Discrete) :
    EqualityLaws a b c where
  refl := (equal_iff ha ha).2 rfl
  symm h := (equal_iff hb ha).2 ((equal_iff ha hb).1 h).symm
  trans h h' := (equal_iff ha hc).2 (((equal_iff ha hb).1 h).trans ((equal_iff hb hc).1 h'))
  none := equal_none ha
  numbers _ _ := equal_numbers
  equatable := equatable_of_equal ha hb
  equatable_symm := Value.equatable_symm ha hb
  comparable_symm := Value.comparable_symm ha hb
  comparable_trans := Value.comparable_trans ha hb hc
  equatable_of_comparable h := (equatable_iff ha hb).2 (.inr (.inr h))

/-- Of two values that can be ordered one stands before the other, or they stand at one place. -/
theorem less_or_greater_or_same (ha : a.Discrete) (hb : b.Discrete) (h : Comparable a b) :
    less a b = true ∧ greater a b = false ∧ ¬ SameRank a b ∨
    less a b = false ∧ greater a b = true ∧ ¬ SameRank a b ∨
    less a b = false ∧ greater a b = false ∧ SameRank a b := by
  obtain ⟨x, y, ranks⟩ := (comparable_iff ha hb).1 h
  have same : SameRank a b ↔ x.position = y.position := by
    obtain ⟨scale, position⟩ := x
    obtain ⟨scale', position'⟩ := y
    obtain rfl : scale = scale' := ranks.scale
    simp [SameRank, ranks.left, ranks.right]
  rw [less, greater, related_eq ha hb ranks, related_eq ha hb ranks, same]
  simp only [decide_eq_true_eq, decide_eq_false_iff_not]
  omega

theorem greater_eq_less (ha : a.Discrete) (hb : b.Discrete) : greater a b = less b a := by
  by_cases h : Comparable a b
  · obtain ⟨x, y, ranks⟩ := (comparable_iff ha hb).1 h
    rw [greater, less, related_eq ha hb ranks, related_eq hb ha ranks.symm]
  · have h' : ¬ Comparable b a := fun comparable => h (comparable_symm hb ha comparable)
    rw [greater, less, related_of_incomparable h, related_of_incomparable h']

theorem lessEqual_eq_not_greater (ha : a.Discrete) (hb : b.Discrete) (h : Comparable a b) :
    lessEqual a b = !greater a b := by
  refine related_not ha hb h fun m n => ?_
  rw [← decide_not, decide_eq_decide, Int.not_lt]

theorem greaterEqual_eq_not_less (ha : a.Discrete) (hb : b.Discrete) (h : Comparable a b) :
    greaterEqual a b = !less a b := by
  refine related_not ha hb h fun m n => ?_
  rw [← decide_not, decide_eq_decide, Int.not_lt]

theorem equal_of_lessEqual {m n : Int} (ha : a.toInt? = some m) (hb : b.toInt? = some n)
    (h : lessEqual a b = true) (h' : lessEqual b a = true) : equal a b = true := by
  have ranks {u v : Value} {i j : Int} (hu : u.toInt? = some i) (hv : v.toInt? = some j) :
      ranked u v = some (.ints i j) := by
    cases u <;> cases hu
    all_goals
      cases v <;> cases hv
      all_goals rfl
  rw [lessEqual, related, ranks ha hb] at h
  rw [lessEqual, related, ranks hb ha] at h'
  exact (equal_numbers ha hb).2 (Int.le_antisymm (of_decide_eq_true h) (of_decide_eq_true h'))

theorem lessEqual_strings (s t : Text) :
    (lessEqual (.string s) (.string t) = true ∧ lessEqual (.string t) (.string s) = true) ↔
      s.length = t.length := by
  simp only [lessEqual, related, ranked, decide_eq_true_eq]
  omega

theorem orderLaws (ha : a.Discrete) (hb : b.Discrete) (hc : c.Discrete) : OrderLaws a b c where
  weak := isStrictWeakOrder_less ha
  one := less_or_greater_or_same ha hb
  greater_eq := greater_eq_less ha hb
  lessEqual_eq := lessEqual_eq_not_greater ha hb
  greaterEqual_eq := greaterEqual_eq_not_less ha hb
  congr h := by
    obtain ⟨less_left, less_right⟩ := related_congr ha hb hc h
    obtain ⟨greater_left, greater_right⟩ := related_congr ha hb hc h
    exact ⟨less_left, less_right, greater_left, greater_right⟩
  incomparable h := by
    refine ⟨?_, ?_, ?_, ?_⟩
    all_goals exact related_of_incomparable h
  numbers _ _ hm hn := equal_of_lessEqual hm hn
  strings := by
    rintro s t rfl rfl
    exact lessEqual_strings s t

end

/-- Equality and order of values other than floats obey their laws. -/
theorem equality_and_order_are_lawful {a b c : Value} (ha : a.Discrete) (hb : b.Discrete)
    (hc : c.Discrete) : EqualityLaws a b c ∧ OrderLaws a b c :=
  ⟨equalityLaws ha hb hc, orderLaws ha hb hc⟩

/-- A truth value, the integer it is equal to, and a greater one; and two strings of one length. -/
theorem equality_and_order_are_lawful_mixed :
    (Discrete (.bool true) ∧ Discrete (.int 1) ∧ Discrete (.int 2)) ∧
      EqualityLaws (.bool true) (.int 1) (.int 2) ∧ OrderLaws (.bool true) (.int 1) (.int 2) ∧
      less (.bool true) (.int 2) = true ∧
      lessEqual (.string (utf8 "ab")) (.string (utf8 "cd")) = true := by
  have discrete : Discrete (.bool true) ∧ Discrete (.int 1) ∧ Discrete (.int 2) := by
    refine ⟨?_, ?_, ?_⟩
    all_goals simp [Discrete, kind]
  obtain ⟨equality, order⟩ := equality_and_order_are_lawful discrete.1 discrete.2.1 discrete.2.2
  have strings : Discrete (.string (utf8 "ab")) ∧ Discrete (.string (utf8 "cd")) := by
    refine ⟨?_, ?_⟩
    all_goals simp [Discrete, kind]
  obtain ⟨_, ordered⟩ := equality_and_order_are_lawful strings.1 strings.2 discrete.1
  refine ⟨discrete, equality, order, ?_, ((ordered.strings _ _ rfl rfl).2 (by decide)).1⟩
  rw [(order.congr ((equality.numbers 1 1 rfl (by decide)).2 rfl)).1]
  decide

end StackScript.Value
