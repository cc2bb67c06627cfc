import StackScript.Proofs.Gathering

/-! The loop over whole episodes. Where nothing is gathered, the answers of an episode are read up to its
last one, and then its effect has taken place and nothing is gathered again. -/

namespace StackScript.Prompt

variable {front lines : List Text} {line last : Text}

theorem Complete.pending (h : Complete (front ++ [last])) : Pending front where
  begins first head := by
    refine h.begins first ?_
    rw [List.head?_append, Option.mem_def.1 head]
    rfl
  opened part isFront some := by
    refine h.opened part (isFront.trans (List.prefix_append front [last])) some ?_
    rintro rfl
    have longer := isFront.length_le
    rw [List.length_append, List.length_singleton] at longer
    omega

theorem actionFor_joins (begins : front = [] → Begins line) :
    actionFor (sourceOf front) (.line line) =
      if 0 < unclosed (sourceOf (front ++ [line])) then .hold (sourceOf (front ++ [line]))
      else .interpret (sourceOf (front ++ [line])) := by
  rcases actionFor_line front line with ⟨none, leaves, _⟩ | ⟨none, words, _⟩ | ⟨none, blank, _⟩ |
    ⟨_, action⟩
  · exact absurd leaves (begins none).stays
  · exact absurd words (begins none).words
  · exact absurd blank (begins none).some
  · exact action

theorem begins_of_head (h : ∀ first ∈ (front ++ line :: lines).head?, Begins first) :
    front = [] → Begins line := by
  rintro rfl
  exact h line rfl

theorem actionFor_command (command : IsCommand line) :
    actionFor (sourceOf []) (.line line) = .command (Text.trim line) := by
  have stays : ¬ (Text.trim line = utf8 "exit" ∨ Text.trim line = utf8 "quit") := by
    unfold IsCommand at command
    rintro (word | word)
    · rw [word] at command
      exact absurd command (by decide)
    · rw [word] at command
      exact absurd command (by decide)
  have colon : (Text.trim line).head? = some 0x3a := command
  simp [actionFor, sourceOf, stays, colon]

theorem actionFor_blank (blank : IsBlank line) : actionFor (sourceOf []) (.line line) = .ignore := by
  have trimmed : Text.trim line = [] := blank
  have words : utf8 "exit" ≠ [] ∧ utf8 "quit" ≠ [] := by decide
  simp [actionFor, sourceOf, trimmed, words.1.symm, words.2.symm]

theorem resumed_pending (echo : Bool) (p : Prompt) (events : List LineEvent)
    (pending : Pending (front ++ lines)) :
    resumed echo front (lines.map .line ++ events) p = resumed echo (front ++ lines) events p := by
  induction lines generalizing front with
  | nil => simp
  | cons line lines ih =>
    have more : Pending (front ++ [line] ++ lines) := by simpa using pending
    have opened : 0 < unclosed (sourceOf (front ++ [line])) :=
      more.opened _ (List.prefix_append _ _) (by simp)
    have held : resumed echo front (.line line :: (lines.map .line ++ events)) p =
        resumed echo (front ++ [line]) (lines.map .line ++ events) p := by
      rw [resumed_cons, actionFor_joins (begins_of_head pending.begins), if_pos opened, resumed,
        List.length_append, List.length_singleton]
      rfl
    rw [List.map_cons, List.cons_append, held, ih more, List.append_assoc]
    rfl

theorem loop_episode (echo : Bool) {p : Prompt} (clean : p.buffer = []) {x : Episode} (right : x.Right)
    (events : List LineEvent) :
    loop echo (x.events ++ events) [] p = loop echo events x.prompts.reverse (x.carryOut echo p) := by
  -- The last answer of an episode, behind the lines that were gathered for it.
  have ends (lines : List Text) (e : LineEvent) {action : Action} {q : Prompt}
      (act : actionFor (sourceOf lines) e = action)
      (effect : (p.holding echo (lines.length + 1) lines).perform action = (q, true)) :
      resumed echo lines (e :: events) p = loop echo events (promptsFor (lines.length + 1)).reverse q := by
    rw [resumed_cons, act, effect]
  have emptied (lines : List Text) := @holding_emptied echo p clean (lines.length + 1) lines
  have gathered {lines : List Text} (pending : Pending lines) (events : List LineEvent) :
      loop echo (lines.map .line ++ events) [] p = resumed echo lines events p := by
    rw [← resumed_nil clean]
    exact resumed_pending echo p events pending
  cases x with
  | blank line =>
    have done := ends [] _ (actionFor_blank right) (congrArg (·, true) (emptied []))
    exact (gathered pending_nil _).trans done
  | command line =>
    have done := ends [] _ (actionFor_command right)
      (congrArg (fun q => (q.command (Text.trim line), true)) (emptied []))
    exact (gathered pending_nil _).trans done
  | input lines =>
    obtain ⟨front, last, rfl⟩ : ∃ front last, lines = front ++ [last] :=
      ⟨_, _, (List.dropLast_concat_getLast right.some).symm⟩
    have complete : Complete (front ++ [last]) := right
    have closed : ¬ 0 < unclosed (sourceOf (front ++ [last])) := Int.not_lt.2 complete.closed
    have joins := (actionFor_joins (begins_of_head complete.begins)).trans (if_neg closed)
    have done := ends front _ joins
      (congrArg (fun q => (q.interpret (sourceOf (front ++ [last])), true)) (emptied front))
    have read := (gathered complete.pending _).trans done
    simpa [Episode.events, Episode.prompts, Episode.carryOut, Episode.effect, interpret] using read
  | aborted lines =>
    have done := ends lines .aborted rfl (congrArg (·, true) (emptied lines))
    have read := (gathered right _).trans done
    simpa [Episode.events, Episode.prompts, Episode.carryOut, Episode.effect] using read

theorem loop_episodes (echo : Bool) {p : Prompt} (clean : p.buffer = []) {xs : List Episode}
    (right : ∀ x ∈ xs, x.Right) (events : List LineEvent) :
    loop echo (xs.flatMap Episode.events ++ events) [] p =
      loop echo events (xs.flatMap Episode.prompts).reverse (xs.foldl (Episode.carryOut echo) p) := by
  induction xs generalizing p with
  | nil => rfl
  | cons x xs ih =>
    obtain ⟨first, rest⟩ := List.forall_mem_cons.1 right
    have clean' := (buffer_carryOut echo p x).trans clean
    have later := ih clean' rest
    rw [List.flatMap_cons, List.append_assoc, loop_episode echo clean first, loop_asked, later,
      loop_asked echo events, List.foldl_cons, loop_asked echo events (List.reverse (List.flatMap _ _))]
    simp

theorem buffer_episodes (echo : Bool) (xs : List Episode) (p : Prompt) :
    (xs.foldl (Episode.carryOut echo) p).buffer = p.buffer := by
  induction xs generalizing p with
  | nil => rfl
  | cons x xs ih => exact (ih _).trans (buffer_carryOut echo p x)

theorem loop_of_episodes (echo : Bool) {p : Prompt} (clean : p.buffer = []) {xs : List Episode}
    (right : ∀ x ∈ xs, x.Right) :
    loop echo (xs.flatMap Episode.events) [] p =
      ⟨(xs.foldl (Episode.carryOut echo) p).shows echo [utf8 "lox> "],
        xs.flatMap Episode.prompts ++ [utf8 "lox> "], []⟩ := by
  have ask : (xs.foldl (Episode.carryOut echo) p).ask = utf8 "lox> " :=
    if_pos ((buffer_episodes echo xs p).trans clean)
  have whole := loop_episodes echo clean right []
  rw [List.append_nil] at whole
  rw [whole, loop, ask, List.reverse_cons, List.reverse_reverse]
  rfl

end StackScript.Prompt
