import Mathlib.Algebra.Group.Int.Defs
import Mathlib.Algebra.Group.Nat.Defs
import StackScript.Proofs.Semantics.Evaluation

/-! Arithmetic of integers and repetition of strings. An integer result is the exact one up to a
multiple of `2 ^ 64`, and no operation but division by zero fails. A repetition fails exactly when its
count is negative or its length would be past the limit, and finding that out takes no number outside
the range of words. -/

namespace StackScript.Value

/-- A result is the integer in the range of words that differs from `n` by a multiple of `2 ^ 64`. -/
def IsWordOf (r : Except OperatorFault Value) (n : Int) : Prop :=
  ∃ z : Int64, r = .ok (.int z) ∧ z.toInt = n.bmod (2 ^ 64)

/-- A quotient rounded toward zero: what it leaves over is less than the divisor, and has the sign of
the dividend unless nothing is left. -/
def Truncates (x y q : Int) : Prop :=
  (x - q * y).natAbs < y.natAbs ∧ (x - q * y = 0 ∨ (x - q * y).sign = x.sign)

theorem truncates_tdiv (x : Int) {y : Int} (nonzero : y ≠ 0) : Truncates x y (x.tdiv y) := by
  have left : x - x.tdiv y * y = x.tmod y := by rw [Int.tmod_def, Int.mul_comm]
  unfold Truncates
  rw [left]
  constructor
  · rw [Int.natAbs_tmod]
    exact Nat.mod_lt _ (Int.natAbs_pos.2 nonzero)
  · by_cases divides : y ∣ x
    · exact .inl (Int.tmod_eq_zero_of_dvd divides)
    · right
      rw [Int.sign_tmod, if_neg divides]

theorem toInt_div_of_fits {x y : Int64} (fits : ¬ (x = Int64.minValue ∧ y = -1)) :
    (x / y).toInt = x.toInt.tdiv y.toInt := by
  by_cases least : x = Int64.minValue
  · exact Int64.toInt_div_of_ne_right x y fun negative => fits ⟨least, negative⟩
  · exact Int64.toInt_div_of_ne_left x y least

theorem divide_int (x y : Int64) :
    divide (.int x) (.int y) = if y = 0 then .error .divisionByZero else .ok (.int (x / y)) := by
  change (if y = 0 then Except.error OperatorFault.divisionByZero else .ok (x / y)).map Value.int = _
  split <;> rfl

theorem divide_int_truncates {x y : Int64} (nonzero : y ≠ 0)
    (fits : ¬ (x = Int64.minValue ∧ y = -1)) :
    ∃ q : Int64, divide (.int x) (.int y) = .ok (.int q) ∧ Truncates x.toInt y.toInt q.toInt := by
  refine ⟨x / y, by rw [divide_int, if_neg nonzero], ?_⟩
  rw [toInt_div_of_fits fits]
  refine truncates_tdiv x.toInt fun zero => nonzero ?_
  exact Int64.toInt_inj.1 (zero.trans Int64.toInt_zero.symm)

theorem negate_int_eq (x : Int64) : negate (.int x) = subtract (.int 0) (.int x) := by
  have same : 0 - x = -x := Int64.zero_sub x
  exact congrArg (fun z => Except.ok (Value.int z)) same.symm

theorem eval_negation {e : Expr} {minus minus' zero : Token} {w w' : World} {x : Int64}
    (sign : minus.kind = .minus) (sign' : minus'.kind = .minus) (null : zero.value? = some (.int 0))
    (run : e.eval.run w = .ok (.int x) w') :
    (Expr.unary minus e).eval.run w = .ok (.int (-x)) w' ∧
      (Expr.binary (.literal zero) minus' e).eval.run w = .ok (.int (-x)) w' := by
  have difference : subtract (.int 0) (.int x) = .ok (.int (-x)) := (negate_int_eq x).symm
  constructor
  · rw [Expr.eval, EStateM.run_bind, run, sign]
    rfl
  · rw [Expr.eval, EStateM.run_bind, Expr.eval, null]
    change (e.eval >>= _).run w = _
    rw [EStateM.run_bind, run, sign']
    change (Eval.compute (subtract (.int 0) (.int x))).run w' = _
    rw [difference]
    rfl

/-- Integers are words: sums, differences, products and negatives are exact up to a multiple of
`2 ^ 64`, and quotients are rounded toward zero, but for the one that is no word. -/
theorem integers_wrap_and_truncate (x y z : Int64) :
    IsWordOf (add (.int x) (.int y)) (x.toInt + y.toInt) ∧
    IsWordOf (subtract (.int x) (.int y)) (x.toInt - y.toInt) ∧
    IsWordOf (multiply (.int x) (.int y)) (x.toInt * y.toInt) ∧
    IsWordOf (negate (.int x)) (-x.toInt) ∧
    ((∃ e, divide (.int x) (.int y) = .error e) ↔ y = 0) ∧
    divide (.int x) (.int 0) = .error .divisionByZero ∧
    (y ≠ 0 → ¬ (x = Int64.minValue ∧ y = -1) →
      ∃ q : Int64, divide (.int x) (.int y) = .ok (.int q) ∧ Truncates x.toInt y.toInt q.toInt) ∧
    divide (.int Int64.minValue) (.int (-1)) = .ok (.int Int64.minValue) ∧
    (do subtract (← add (.int x) (.int y)) (.int y)) = .ok (.int x) ∧
    subtract (.int x) (.int y) = (do add (.int x) (← negate (.int y))) ∧
    (do multiply (← multiply (.int x) (.int y)) (.int z)) =
      (do multiply (.int x) (← multiply (.int y) (.int z))) ∧
    negate (.int x) = subtract (.int 0) (.int x) ∧
    ∀ (e : Expr) (minus minus' zero : Token) (w w' : World), minus.kind = .minus →
      minus'.kind = .minus → zero.value? = some (.int 0) → e.eval.run w = .ok (.int x) w' →
      (Expr.unary minus e).eval.run w = .ok (.int (-x)) w' ∧
        (Expr.binary (.literal zero) minus' e).eval.run w = .ok (.int (-x)) w' := by
  refine ⟨⟨_, rfl, Int64.toInt_add x y⟩, ⟨_, rfl, Int64.toInt_sub x y⟩, ⟨_, rfl, Int64.toInt_mul x y⟩,
    ⟨_, rfl, Int64.toInt_neg x⟩, ?_, rfl, divide_int_truncates, ?_, ?_, ?_, ?_,
    negate_int_eq x, ?_⟩
  · rw [divide_int]
    by_cases zero : y = 0
    · simp [zero]
    · simp [zero]
  · have same : Int64.minValue / (-1) = Int64.minValue := by decide
    exact (divide_int _ _).trans (congrArg (fun z => Except.ok (Value.int z)) same)
  · have same : x + y - y = x := Int64.add_sub_cancel x y
    exact congrArg (fun z => Except.ok (Value.int z)) same
  · have same : x - y = x + -y := Int64.sub_eq_add_neg x y
    exact congrArg (fun z => Except.ok (Value.int z)) same
  · have same : x * y * z = x * (y * z) := Int64.mul_assoc x y z
    exact congrArg (fun z => Except.ok (Value.int z)) same
  · intro e minus minus' zero w w' sign sign' null run
    exact eval_negation sign sign' null run

/-- The quotient of -7 by 2 is -3, and -7 is subtracted from zero as it is negated. -/
theorem integers_wrap_and_truncate_negative :
    (∃ q : Int64, divide (.int (-7)) (.int 2) = .ok (.int q) ∧ Truncates (-7) 2 q.toInt) ∧
      ∃ (e : Expr) (minus zero : Token),
        e.eval.run {} = .ok (.int (-7)) {} ∧ zero.value? = some (.int 0) ∧
        (Expr.unary minus e).eval.run {} = .ok (.int 7) {} ∧
        (Expr.binary (.literal zero) minus e).eval.run {} = .ok (.int 7) {} := by
  obtain ⟨_, _, _, _, _, _, quotient, _, _, _, _, _, negation⟩ := integers_wrap_and_truncate (-7) 2 0
  have value : (Token.mk .int (utf8 "-7") {}).value? = some (.int (-7)) := by decide +kernel
  have null : (Token.mk .int (utf8 "0") {}).value? = some (.int 0) := by decide +kernel
  have run : (Expr.literal ⟨.int, utf8 "-7", {}⟩).eval.run {} = .ok (.int (-7)) {} := by
    rw [Expr.eval, value]
    rfl
  have negatives := negation (.literal ⟨.int, utf8 "-7", {}⟩) ⟨.minus, utf8 "-", {}⟩
    ⟨.minus, utf8 "-", {}⟩ ⟨.int, utf8 "0", {}⟩ {} {} rfl rfl null run
  exact ⟨quotient (by decide) (by decide), _, _, _, run, null, negatives⟩

theorem repeated_eq (s : Text) (n : Nat) : repeated s n = (List.replicate n s).flatten := by
  have copies (n : Nat) : Nat.repeat (s ++ ·) n [] = (List.replicate n s).flatten := by
    induction n with
    | zero => rfl
    | succ n ih =>
      rw [Nat.repeat, ih, List.replicate_succ, List.flatten_cons]
  unfold repeated
  split
  · next empty => simp [empty]
  · exact copies n

/-- The limit is divided by the count so that nothing large is computed; it comes to the same as if
the length were multiplied by it. -/
theorem repeatString_eq (s : Text) (n : Int64) :
    repeatString s n =
      if n.toInt < 0 then .error (.negativeRepeat n)
      else if maxRepeatLength < s.length * n.toInt.toNat then .error .repeatTooLong
      else .ok (.string (List.replicate n.toInt.toNat s).flatten) := by
  have negative : n < 0 ↔ n.toInt < 0 := Int64.lt_iff_toInt_lt
  have positive : 0 < n ↔ 0 < n.toInt := Int64.lt_iff_toInt_lt
  have past : (0 < n && maxRepeatLength / n.toInt.toNat < s.length) =
      decide (maxRepeatLength < s.length * n.toInt.toNat) := by
    by_cases some : 0 < n.toInt
    · rw [decide_eq_true (positive.2 some), Bool.true_and, decide_eq_decide]
      exact Nat.div_lt_iff_lt_mul (by omega)
    · have none : n.toInt.toNat = 0 := Int.toNat_of_nonpos (Int.not_lt.1 some)
      simp [positive, some, none]
  unfold repeatString
  simp only [repeated_eq, negative, past, decide_eq_true_eq]

theorem repeatString_ok_iff (s : Text) (n : Int64) (v : Value) :
    repeatString s n = .ok v ↔ 0 ≤ n.toInt ∧ (s.length : Int) * n.toInt ≤ 2 ^ 30 ∧
      v = .string (List.replicate n.toInt.toNat s).flatten := by
  rw [repeatString_eq]
  have limit : maxRepeatLength = 2 ^ 30 := rfl
  by_cases negative : n.toInt < 0
  · rw [if_pos negative]
    constructor
    · intro h
      cases h
    · exact fun h => absurd h.1 (Int.not_le.2 negative)
  · have count : (n.toInt.toNat : Int) = n.toInt := Int.toNat_of_nonneg (Int.not_lt.1 negative)
    have length : ((s.length * n.toInt.toNat : Nat) : Int) = s.length * n.toInt := by
      rw [Int.natCast_mul, count]
    rw [if_neg negative, ← length, limit]
    split
    · next past =>
      constructor
      · intro h
        cases h
      · intro h
        omega
    · next within =>
      constructor
      · rintro ⟨⟩
        exact ⟨by omega, by omega, rfl⟩
      · rintro ⟨_, _, rfl⟩
        rfl

theorem toInt_add_of_nonneg {m n : Int64} (hm : 0 ≤ m) (hn : 0 ≤ n) (sum : 0 ≤ (m + n).toInt) :
    (m + n).toInt = m.toInt + n.toInt := by
  have hm := Int64.le_iff_toInt_le.1 hm
  have hn := Int64.le_iff_toInt_le.1 hn
  have := m.toInt_lt
  have := n.toInt_lt
  rw [Int64.toInt_zero] at hm hn
  rw [Int64.toInt_add, Int.bmod_def] at sum ⊢
  split at sum <;> omega

theorem repeatString_add {s : Text} {m n : Int64} (hm : 0 ≤ m) (hn : 0 ≤ n) {v : Value}
    (h : repeatString s (m + n) = .ok v) :
    (do add (← repeatString s m) (← repeatString s n)) = .ok v := by
  obtain ⟨sum, within, rfl⟩ := (repeatString_ok_iff s (m + n) v).1 h
  rw [toInt_add_of_nonneg hm hn sum] at within ⊢
  rw [Int.mul_add] at within
  have hm := Int64.le_iff_toInt_le.1 hm
  have hn := Int64.le_iff_toInt_le.1 hn
  have left := Int.mul_nonneg (Int.natCast_nonneg s.length) hm
  have right := Int.mul_nonneg (Int.natCast_nonneg s.length) hn
  have first := (repeatString_ok_iff s m _).2 ⟨hm, by omega, rfl⟩
  have second := (repeatString_ok_iff s n _).2 ⟨hn, by omega, rfl⟩
  rw [first, second, Int.toNat_add hm hn, ← List.replicate_append_replicate,
    List.flatten_append]
  rfl

def word? (n : Int) : Option Int64 := if Number.fitsInt64 n then some (Int64.ofInt n) else Option.none

/-- The quotient of two words, unless the divisor is zero or the quotient is no word. -/
def quotient? (x y : Int64) : Option Int64 := if y = 0 then Option.none else word? (x.toInt.tdiv y.toInt)

/-- Whether a repetition is past the limit, found out with words only. -/
def tooLong? (length n : Int64) : Option Bool :=
  if 0 < n then (quotient? (Int64.ofNat maxRepeatLength) n).map (· < length) else some false

theorem word?_natCast {n : Nat} (small : n < 2 ^ 63) : word? n = some (Int64.ofInt n) := by
  refine if_pos ?_
  simp only [Number.fitsInt64, Bool.and_eq_true, decide_eq_true_eq]
  omega

theorem toInt_of_word? {n : Int} {z : Int64} (h : word? n = some z) : z.toInt = n := by
  unfold word? at h
  split at h
  · next fits =>
    cases h
    simp only [Number.fitsInt64, Bool.and_eq_true, decide_eq_true_eq] at fits
    exact Int64.toInt_ofInt_of_le fits.1 (by omega)
  · cases h

/-- What is checked in words is checked as in the integers, and without a failure. -/
theorem tooLong?_eq {s : Text} {length : Int64} (known : word? s.length = some length) {n : Int64}
    (count : ¬ n < 0) :
    tooLong? length n = some (decide (maxRepeatLength < s.length * n.toInt.toNat)) := by
  have size := toInt_of_word? known
  have limit : (Int64.ofNat maxRepeatLength).toInt = maxRepeatLength := by decide
  rw [Int64.lt_iff_toInt_lt, Int64.toInt_zero, Int.not_lt] at count
  unfold tooLong?
  split
  · next positive =>
    rw [Int64.lt_iff_toInt_lt, Int64.toInt_zero] at positive
    have nonzero : n ≠ 0 := by
      rintro rfl
      exact absurd positive (by decide)
    obtain ⟨k, hk⟩ := Int.eq_ofNat_of_zero_le count
    have some : 0 < k := by omega
    have quotient : (maxRepeatLength : Int).tdiv n.toInt = ((maxRepeatLength / k : Nat) : Int) := by
      rw [hk]
      rfl
    have made := word?_natCast (Nat.lt_of_le_of_lt (Nat.div_le_self maxRepeatLength k) (by decide))
    rw [quotient?, if_neg nonzero, limit, quotient, made, Option.map_some, Option.some_inj,
      decide_eq_decide, Int64.lt_iff_toInt_lt, toInt_of_word? made, size, Int.ofNat_lt, hk]
    exact Nat.div_lt_iff_lt_mul some
  · next none =>
    rw [Int64.lt_iff_toInt_lt, Int64.toInt_zero] at none
    have zero : n.toInt = 0 := by omega
    simp [zero]

/-- A string is repeated exactly as often as it is asked for, if it is asked for a count and the
result keeps within the limit. Where the length of the string is a word, which it is for every string
in memory, no number is computed on the way that is none. -/
theorem repeats_within_limit (s : Text) (n : Int64) :
    ((∃ v, multiply (.string s) (.int n) = .ok v) ↔
      0 ≤ n.toInt ∧ (s.length : Int) * n.toInt ≤ 2 ^ 30) ∧
    (∀ v, multiply (.string s) (.int n) = .ok v →
      v = .string (List.replicate n.toInt.toNat s).flatten) ∧
    (∀ length, word? s.length = some length → ¬ n < 0 → ∃ long, tooLong? length n = some long ∧
      multiply (.string s) (.int n) =
        if long then .error .repeatTooLong else .ok (.string (repeated s n.toInt.toNat))) ∧
    (∀ m v, 0 ≤ m → 0 ≤ n → (do multiply (.string s) (← add (.int m) (.int n))) = .ok v →
      (do add (← multiply (.string s) (.int m)) (← multiply (.string s) (.int n))) = .ok v) ∧
    multiply (.int n) (.string s) = .error (.mismatch .multiply .int .string) := by
  refine ⟨⟨?_, ?_⟩, ?_, ?_, ?_, rfl⟩
  · rintro ⟨v, repeats⟩
    obtain ⟨count, within, _⟩ := (repeatString_ok_iff s n v).1 repeats
    exact ⟨count, within⟩
  · rintro ⟨count, within⟩
    exact ⟨_, (repeatString_ok_iff s n _).2 ⟨count, within, rfl⟩⟩
  · intro v repeats
    exact ((repeatString_ok_iff s n v).1 repeats).2.2
  · intro length known count
    refine ⟨_, tooLong?_eq known count, ?_⟩
    have notNegative : ¬ n.toInt < 0 := fun negative => count (Int64.lt_iff_toInt_lt.2 negative)
    change repeatString s n = _
    rw [repeatString_eq, if_neg notNegative, repeated_eq]
    simp only [decide_eq_true_eq]
  · intro m v hm hn repeats
    exact repeatString_add hm hn repeats

/-- Two copies of two bytes, made at once or one by one; and a count so large that only the empty
string can be repeated. -/
theorem repeats_within_limit_twice :
    (∃ v, multiply (.string (utf8 "ab")) (.int 2) = .ok v ∧ v = .string (utf8 "abab") ∧
      (do add (← multiply (.string (utf8 "ab")) (.int 1)) (← multiply (.string (utf8 "ab")) (.int 1))) =
        .ok v) ∧
      (∃ long, tooLong? 2 2 = some long) ∧
      (∃ v, multiply (.string []) (.int Int64.maxValue) = .ok v) ∧
      ¬ ∃ v, multiply (.string (utf8 "a")) (.int 1073741825) = .ok v := by
  obtain ⟨succeeds, copies, checked, _⟩ := repeats_within_limit (utf8 "ab") 2
  obtain ⟨_, _, _, parts, _⟩ := repeats_within_limit (utf8 "ab") 1
  obtain ⟨long, found, _⟩ := checked 2 (by decide) (by decide)
  obtain ⟨v, twice⟩ := succeeds.2 (by decide)
  refine ⟨⟨v, twice, (copies v twice).trans (by decide), ?_⟩, ⟨long, found⟩, ?_, ?_⟩
  · exact parts 1 v (by decide) (by decide) twice
  · exact (repeats_within_limit [] Int64.maxValue).1.2 (by decide)
  · exact fun h => absurd ((repeats_within_limit (utf8 "a") 1073741825).1.1 h) (by decide)

end StackScript.Value
