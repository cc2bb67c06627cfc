import StackScript.Token.Lexer

/-! Lexemes have bytes. A token that is found at the front of a text takes at least one byte and no
more than there are, and it is not the end. -/

namespace StackScript

theorem TokenKind.ofWord_ne_eof (w : Text) : ofWord w ≠ .eof := by
  have listed : ∀ entry ∈ keywords, entry.2 ≠ .eof := by simp [keywords]
  unfold ofWord
  cases found : keywords.find? (·.1 = w) with
  | none => simp
  | some entry => exact listed entry (List.mem_of_find?_eq_some found)

namespace Lexer

theorem wordFrom_bounds (skip : Nat) (t : Text) (n : Nat) :
    n ≤ wordFrom skip t n ∧ wordFrom skip t n ≤ n + t.length := by
  induction t generalizing skip n with
  | nil => simp [wordFrom]
  | cons b t ih =>
    cases skip with
    | succ skip =>
      have bounds := ih skip (n + 1)
      rw [wordFrom, List.length_cons]
      omega
    | zero =>
      rw [wordFrom, List.length_cons]
      split
      · have bounds := ih ((Text.runeAt b t).size - 1) (n + 1)
        omega
      · omega

theorem digitsFrom_bounds (t : Text) (n : Nat) :
    n ≤ digitsFrom t n ∧ digitsFrom t n ≤ n + t.length := by
  induction t generalizing n with
  | nil => simp [digitsFrom]
  | cons b t ih =>
    rw [digitsFrom, List.length_cons]
    split
    · have bounds := ih (n + 1)
      omega
    · omega

theorem stringFrom_bounds {quote : UInt8} {t : Text} {n size : Nat}
    (found : stringFrom quote t n = some size) : n < size ∧ size ≤ n + t.length := by
  revert found
  fun_induction stringFrom quote t n with
  | case1 n => exact nofun
  | case2 rest n =>
    intro found
    cases found
    rw [List.length_cons]
    omega
  | case3 n other => exact nofun
  | case4 n b rest other ih =>
    intro found
    have bounds := ih found
    rw [List.length_cons, List.length_cons]
    omega
  | case5 b rest n other plain ih =>
    intro found
    have bounds := ih found
    rw [List.length_cons]
    omega

theorem pairKind_ne_eof {a b : UInt8} {kind : TokenKind} (found : pairKind a b = some kind) :
    kind ≠ .eof := by
  unfold pairKind at found
  split at found
  all_goals cases found
  all_goals simp

theorem singleKind_ne_eof {b : UInt8} {kind : TokenKind} (found : singleKind b = some kind) :
    kind ≠ .eof := by
  unfold singleKind at found
  split at found
  all_goals cases found
  all_goals simp

def Scan.Proper (available : Nat) : Scan → Prop
  | .found kind size => kind ≠ .eof ∧ 0 < size ∧ size ≤ available
  | .unterminated | .unexpected _ => True

theorem scanNumber_proper {b : UInt8} (digit : Text.isDigit b = true) (rest : Text) :
    (scanNumber (b :: rest)).Proper (rest.length + 1) := by
  have first : digitsLength (b :: rest) = digitsFrom rest 1 := by
    rw [digitsLength, digitsFrom, if_pos digit]
  have bounds := digitsFrom_bounds rest 1
  unfold scanNumber
  dsimp only
  split
  · next places behind =>
    have left := congrArg List.length behind
    rw [List.length_drop, List.length_cons, List.length_cons] at left
    have inside := digitsFrom_bounds places 0
    rw [← digitsLength] at inside
    split
    · exact ⟨by simp, by omega, by omega⟩
    · exact ⟨by simp, by omega, by omega⟩
  · exact ⟨by simp, by omega, by omega⟩

theorem scan_proper (b : UInt8) (rest : Text) : (scan b rest).Proper (rest.length + 1) := by
  unfold scan
  split
  · split
    · next found =>
      have bounds := stringFrom_bounds found
      exact ⟨by simp, by omega, by omega⟩
    · trivial
  · split
    · next kind found =>
      obtain ⟨second, head, pair⟩ := Option.bind_eq_some_iff.1 found
      obtain ⟨tail, rfl⟩ := List.head?_eq_some_iff.1 head
      exact ⟨pairKind_ne_eof pair, by omega, by simp⟩
    · split
      · next found => exact ⟨singleKind_ne_eof found, by omega, by omega⟩
      · split
        · next digit => exact scanNumber_proper digit rest
        · dsimp only
          split
          · next starts =>
            have continues : continuesWord (Text.runeAt b rest).char = true := by
              simp [continuesWord, starts]
            have first : wordLength (b :: rest) =
                wordFrom ((Text.runeAt b rest).size - 1) rest 1 := by
              rw [wordLength, wordFrom]
              exact if_pos continues
            have bounds := wordFrom_bounds ((Text.runeAt b rest).size - 1) rest 1
            exact ⟨TokenKind.ofWord_ne_eof _, by omega, by omega⟩
          · trivial

theorem scan_eq_unexpected {b : UInt8} {rest : Text} {r : Text.Rune}
    (found : scan b rest = .unexpected r) : r = Text.runeAt b rest := by
  unfold scan at found
  split at found
  · split at found <;> cases found
  · split at found
    · cases found
    · split at found
      · cases found
      · split at found
        · unfold scanNumber at found
          dsimp only at found
          split at found
          · split at found <;> cases found
          · cases found
        · dsimp only at found
          split at found
          · cases found
          · cases found
            rfl

end Lexer

end StackScript
