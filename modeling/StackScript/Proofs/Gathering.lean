import StackScript.Prompt

/-! Lines at the prompt. The answers of a reader fall into episodes, one after the other, each of which
begins and ends with nothing gathered: a blank line, a command, the lines of one input, or lines that
are given up when the prompt is aborted. Every line that is read belongs to one episode, so that no
line is lost, none is taken twice, and inputs are interpreted in the order of their lines. -/

namespace StackScript.Prompt

/-- The source that lines make: each of them with a line feed behind it. -/
def sourceOf (lines : List Text) : Text := lines.flatMap (· ++ utf8 "\n")

/-- How many braces a source opens more than it closes. One that cannot be cut into tokens opens none. -/
def unclosed (source : Text) : Int :=
  match Lexer.tokens fileName source with
  | ⟨tokens, none⟩ => tokens.countP (·.kind = .leftBrace) - tokens.countP (·.kind = .rightBrace)
  | ⟨_, some _⟩ => 0

def Leaves (line : Text) : Prop := Text.trim line = utf8 "exit" ∨ Text.trim line = utf8 "quit"

def IsCommand (line : Text) : Prop := (Text.trim line).head? = some 0x3a

def IsBlank (line : Text) : Prop := Text.trim line = []

structure Begins (line : Text) : Prop where
  stays : ¬ Leaves line
  words : ¬ IsCommand line
  some : ¬ IsBlank line

structure Pending (lines : List Text) : Prop where
  begins : ∀ line ∈ lines.head?, Begins line
  opened : ∀ front, front <+: lines → front ≠ [] → 0 < unclosed (sourceOf front)

/-- Lines that make one input: no brace is open behind the last of them, and one is behind the others. -/
structure Complete (lines : List Text) : Prop where
  some : lines ≠ []
  begins : ∀ line ∈ lines.head?, Begins line
  closed : unclosed (sourceOf lines) ≤ 0
  opened : ∀ front, front <+: lines → front ≠ [] → front ≠ lines → 0 < unclosed (sourceOf front)

/-- What is read from when nothing is gathered until nothing is gathered again. -/
inductive Episode where
  | blank (line : Text)
  | command (line : Text)
  | input (lines : List Text)
  | aborted (lines : List Text)

/-- What is read last. The reader has also ended when it has no more answers. -/
inductive Leaving where
  | word (line : Text)
  | ended (lines : List Text)
  | failed (lines : List Text)
  | exhausted (lines : List Text)

/-- The prompts for so many answers: every one but the first continues an input. -/
def promptsFor : (answers : Nat) → List Text
  | 0 => []
  | answers + 1 => utf8 "lox> " :: List.replicate answers (utf8 "...> ")

/-- The prompts as a reader shows them that shows any. -/
def shows (echo : Bool) (prompts : List Text) (p : Prompt) : Prompt :=
  if echo then prompts.foldl (fun p t => p.print t) p else p

namespace Episode

def events : Episode → List LineEvent
  | .blank line | .command line => [.line line]
  | .input lines => lines.map .line
  | .aborted lines => lines.map .line ++ [.aborted]

def Right : Episode → Prop
  | .blank line => IsBlank line
  | .command line => IsCommand line
  | .input lines => Complete lines
  | .aborted lines => Pending lines

def prompts (e : Episode) : List Text := promptsFor e.events.length

/-- The source that is interpreted, where one is. -/
def source? : Episode → Option Text
  | .input lines => some (sourceOf lines)
  | _ => none

/-- What an episode comes to once it is read: only a command or an input does anything. -/
def effect : Episode → Prompt → Prompt
  | .blank _, p | .aborted _, p => p
  | .command line, p => p.command (Text.trim line)
  | .input lines, p => { p with
      session := (p.session.interpret Session.undisturbed p.current fileName (sourceOf lines)).2 }

def carryOut (echo : Bool) (p : Prompt) (e : Episode) : Prompt := e.effect (p.shows echo e.prompts)

end Episode

namespace Leaving

def lines : Leaving → List Text
  | .word _ => []
  | .ended lines | .failed lines | .exhausted lines => lines

def events : Leaving → List LineEvent
  | .word line => [.line line]
  | .ended lines => lines.map .line ++ [.ended]
  | .failed lines => lines.map .line ++ [.failed]
  | .exhausted lines => lines.map .line

def Right (unread : List LineEvent) : Leaving → Prop
  | .word line => Leaves line
  | .ended lines | .failed lines => Pending lines
  | .exhausted lines => Pending lines ∧ unread = []

def prompts (l : Leaving) : List Text := promptsFor (l.lines.length + 1)

end Leaving

/-- Episodes that are carried out one after the other, each with its prompts before it, and the sources
that the interpreter is called with on the way. -/
inductive Carried (echo : Bool) : Prompt → List Episode → List Text → Prompt → Prop where
  | done (p : Prompt) : Carried echo p [] [] p
  | blank {p q : Prompt} {line : Text} {rest : List Episode} {sources : List Text} :
      Carried echo (p.shows echo [utf8 "lox> "]) rest sources q →
      Carried echo p (.blank line :: rest) sources q
  | command {p q : Prompt} {line : Text} {rest : List Episode} {sources : List Text} :
      Carried echo ((p.shows echo [utf8 "lox> "]).command (Text.trim line)) rest sources q →
      Carried echo p (.command line :: rest) sources q
  | input {p q asked : Prompt} {lines : List Text} {rest : List Episode} {sources : List Text} :
      asked = p.shows echo (promptsFor lines.length) →
      Carried echo { asked with
        session := (asked.session.interpret Session.undisturbed asked.current fileName
          (sourceOf lines)).2 } rest sources q →
      Carried echo p (.input lines :: rest) (sourceOf lines :: sources) q
  | aborted {p q : Prompt} {lines : List Text} {rest : List Episode} {sources : List Text} :
      Carried echo (p.shows echo (promptsFor (lines.length + 1))) rest sources q →
      Carried echo p (.aborted lines :: rest) sources q

theorem carried_foldl (echo : Bool) (xs : List Episode) (p : Prompt) :
    Carried echo p xs (xs.filterMap Episode.source?) (xs.foldl (Episode.carryOut echo) p) := by
  induction xs generalizing p with
  | nil => exact .done p
  | cons x xs ih =>
    have rest := ih (x.carryOut echo p)
    rw [List.foldl_cons]
    cases x with
    | blank line => exact .blank rest
    | command line => exact .command rest
    | input lines =>
      have prompts : (Episode.input lines).prompts = promptsFor lines.length :=
        congrArg promptsFor (List.length_map _)
      exact .input (congrArg (p.shows echo) prompts) rest
    | aborted lines =>
      have prompts : (Episode.aborted lines).prompts = promptsFor (lines.length + 1) := by
        simp [Episode.prompts, Episode.events]
      rw [Episode.carryOut, Episode.effect, prompts] at rest ⊢
      exact .aborted rest

/-- An account of what a loop has read: the episodes, and how it was left. -/
structure Account (echo : Bool) (p : Prompt) (events : List LineEvent) (t : Transcript)
    (episodes : List Episode) (leaving : Leaving) : Prop where
  right : ∀ e ∈ episodes, e.Right
  left : leaving.Right t.unread
  read : events = episodes.flatMap Episode.events ++ leaving.events ++ t.unread
  asked : t.asked = episodes.flatMap Episode.prompts ++ leaving.prompts
  final : t.final = { (episodes.foldl (Episode.carryOut echo) p).shows echo leaving.prompts with
    buffer := sourceOf leaving.lines }

theorem sourceOf_eq (lines : List Text) : sourceOf lines = lines.flatMap Text.line := rfl

theorem sourceOf_eq_nil {lines : List Text} : sourceOf lines = [] ↔ lines = [] := by
  cases lines with
  | nil => exact ⟨fun _ => rfl, fun _ => rfl⟩
  | cons line lines => simp [sourceOf_eq, Text.line]

theorem sourceOf_concat (lines : List Text) (line : Text) :
    sourceOf (lines ++ [line]) = sourceOf lines ++ Text.line line := by
  simp [sourceOf_eq]

theorem openBraces_eq (source : Text) : openBraces source = unclosed source := by
  have count (step : Int → Token → Int) (each : ∀ n t, step n t =
      if t.kind = .leftBrace then n + 1 else if t.kind = .rightBrace then n - 1 else n)
      (tokens : List Token) (n : Int) : tokens.foldl step n =
      n + (tokens.countP (·.kind = .leftBrace) - tokens.countP (·.kind = .rightBrace)) := by
    induction tokens generalizing n with
    | nil => simp
    | cons t tokens ih =>
      rw [List.foldl_cons, ih, each, List.countP_cons, List.countP_cons]
      grind
  unfold openBraces unclosed
  rcases Lexer.tokens fileName source with ⟨tokens, _ | e⟩
  · refine (count _ ?_ tokens 0).trans (Int.zero_add _)
    rintro n ⟨kind, _, _⟩
    cases kind <;> rfl
  · rfl

theorem promptsFor_succ (n : Nat) :
    promptsFor (n + 1) = promptsFor n ++ [if n = 0 then utf8 "lox> " else utf8 "...> "] := by
  cases n with
  | zero => rfl
  | succ n =>
    rw [if_neg (Nat.succ_ne_zero n)]
    exact congrArg (_ :: ·) List.replicate_succ'

theorem shows_concat (echo : Bool) (prompts : List Text) (t : Text) (p : Prompt) :
    p.shows echo (prompts ++ [t]) =
      if echo then (p.shows echo prompts).print t else p.shows echo prompts := by
  cases echo with
  | true => simp [shows]
  | false => rfl

theorem buffer_shows (echo : Bool) (prompts : List Text) (p : Prompt) :
    (p.shows echo prompts).buffer = p.buffer := by
  cases echo with
  | false => rfl
  | true =>
    simp only [shows, if_true]
    induction prompts generalizing p with
    | nil => rfl
    | cons t prompts ih => exact ih (p.print t)

theorem buffer_print (t : Text) (p : Prompt) : (p.print t).buffer = p.buffer := rfl

theorem buffer_printError (message : Text) (p : Prompt) : (p.printError message).buffer = p.buffer := rfl

theorem buffer_command (name : Text) (p : Prompt) : (p.command name).buffer = p.buffer := by
  unfold command
  repeat' split
  · exact buffer_print _ _
  · exact buffer_print _ _
  · unfold listProgram
    dsimp only
    split
    · exact buffer_printError _ _
    · exact buffer_print _ _
  · unfold reset
    split
    · exact buffer_printError _ _
    · rfl
  · unfold takeSnapshot
    split
    · rfl
    · exact buffer_printError _ _
    · rfl
  · unfold restore
    split
    · exact buffer_printError _ _
    · split
      · rfl
      · exact buffer_printError _ _
      · rfl
  · exact buffer_print _ _

theorem buffer_carryOut (echo : Bool) (p : Prompt) (e : Episode) :
    (e.carryOut echo p).buffer = p.buffer := by
  rw [← buffer_shows echo e.prompts p]
  cases e with
  | blank | aborted | input => rfl
  | command line => exact buffer_command _ _

/-- A loop that has so many lines in hand, when so many prompts were shown for them. -/
def holding (echo : Bool) (prompts : Nat) (lines : List Text) (p : Prompt) : Prompt :=
  { p.shows echo (promptsFor prompts) with buffer := sourceOf lines }

section

variable {echo : Bool} {p : Prompt} {lines front : List Text} {line : Text} {e : LineEvent}
  {events : List LineEvent}

theorem ask_holding (echo : Bool) (n : Nat) (lines : List Text) (p : Prompt) :
    (p.holding echo n lines).ask = if lines.length = 0 then utf8 "lox> " else utf8 "...> " := by
  simp only [ask, holding, sourceOf_eq_nil, List.length_eq_zero_iff]

theorem holding_asked (echo : Bool) (lines : List Text) (p : Prompt) :
    let q := p.holding echo lines.length lines
    (if echo then q.print q.ask else q) = p.holding echo (lines.length + 1) lines := by
  intro q
  rw [ask_holding, holding, promptsFor_succ, shows_concat]
  cases echo with
  | true => rfl
  | false => rfl

theorem holding_emptied (clean : p.buffer = []) (n : Nat) (lines : List Text) :
    { p.holding echo n lines with buffer := [] } = p.shows echo (promptsFor n) := by
  rw [← clean, ← buffer_shows echo (promptsFor n) p]
  rfl

theorem loop_asked (echo : Bool) (events : List LineEvent) (asked : List Text) (p : Prompt) :
    loop echo events asked p =
      { loop echo events [] p with asked := asked.reverse ++ (loop echo events [] p).asked } := by
  induction events generalizing asked p with
  | nil => simp [loop]
  | cons e rest ih =>
    simp only [loop]
    split
    · next q _ =>
      rw [ih (_ :: asked), ih [_]]
      simp
    · simp

def resumed (echo : Bool) (lines : List Text) (events : List LineEvent) (p : Prompt) : Transcript :=
  loop echo events (promptsFor lines.length).reverse (p.holding echo lines.length lines)

theorem holding_nil (clean : p.buffer = []) : p.holding echo 0 [] = p := by
  refine (holding_emptied clean 0 []).trans ?_
  cases echo <;> rfl

theorem resumed_nil (clean : p.buffer = []) : resumed echo [] events p = loop echo events [] p := by
  unfold resumed
  rw [List.length_nil, holding_nil clean]
  rfl

theorem resumed_cons (echo : Bool) (lines : List Text) (e : LineEvent) (events : List LineEvent)
    (p : Prompt) :
    resumed echo lines (e :: events) p =
      match (p.holding echo (lines.length + 1) lines).perform (actionFor (sourceOf lines) e) with
      | (q, true) => loop echo events (promptsFor (lines.length + 1)).reverse q
      | (q, false) => ⟨q, promptsFor (lines.length + 1), events⟩ := by
  have shown := holding_asked echo lines p
  have asked : (p.holding echo lines.length lines).ask :: (promptsFor lines.length).reverse =
      (promptsFor (lines.length + 1)).reverse := by
    rw [promptsFor_succ, ask_holding, List.reverse_concat]
  dsimp only at shown
  simp only [resumed, loop, shown, asked, List.reverse_reverse]
  rfl

theorem Pending.concat (pending : Pending lines) (begins : lines = [] → Begins line)
    (opened : 0 < unclosed (sourceOf (lines ++ [line]))) : Pending (lines ++ [line]) where
  begins := by
    cases lines with
    | nil => simpa using begins rfl
    | cons first rest => exact pending.begins
  opened front isFront some := by
    rcases List.prefix_concat_iff.1 isFront with rfl | shorter
    · exact opened
    · exact pending.opened front shorter some

theorem Pending.complete (pending : Pending lines) (begins : lines = [] → Begins line)
    (closed : ¬ 0 < unclosed (sourceOf (lines ++ [line]))) : Complete (lines ++ [line]) where
  some := by simp
  begins := by
    cases lines with
    | nil => simpa using begins rfl
    | cons first rest => exact pending.begins
  closed := Int.not_lt.1 closed
  opened front isFront some short := by
    rcases List.prefix_concat_iff.1 isFront with rfl | shorter
    · exact absurd rfl short
    · exact pending.opened front shorter some

theorem pending_nil : Pending [] where
  begins := by simp
  opened front isFront some := absurd (List.prefix_nil.1 isFront) some

/-- What a line does: it joins the lines in hand, unless there are none and it is not the first line
of an input. -/
theorem actionFor_line (lines : List Text) (line : Text) :
    (lines = [] ∧ Leaves line ∧ actionFor (sourceOf lines) (.line line) = .leave) ∨
    (lines = [] ∧ IsCommand line ∧
      actionFor (sourceOf lines) (.line line) = .command (Text.trim line)) ∨
    (lines = [] ∧ IsBlank line ∧ actionFor (sourceOf lines) (.line line) = .ignore) ∨
    ((lines = [] → Begins line) ∧ actionFor (sourceOf lines) (.line line) =
      if 0 < unclosed (sourceOf (lines ++ [line])) then .hold (sourceOf (lines ++ [line]))
      else .interpret (sourceOf (lines ++ [line]))) := by
  rw [sourceOf_concat]
  cases lines with
  | cons first rest =>
    refine .inr (.inr (.inr ⟨nofun, ?_⟩))
    have some : sourceOf (first :: rest) ≠ [] := by simp [sourceOf_eq_nil]
    simp only [actionFor, if_pos some, gather, openBraces_eq]
  | nil =>
    have action : actionFor (sourceOf []) (.line line) =
        if Text.trim line = utf8 "exit" ∨ Text.trim line = utf8 "quit" then .leave
        else if (Text.trim line).head? = some 0x3a then .command (Text.trim line)
        else if Text.trim line = [] then .ignore
        else if 0 < unclosed (sourceOf [] ++ Text.line line) then .hold (sourceOf [] ++ Text.line line)
        else .interpret (sourceOf [] ++ Text.line line) := by
      simp [actionFor, sourceOf, gather, openBraces_eq]
    rw [action]
    by_cases leaves : Leaves line
    · exact .inl ⟨rfl, leaves, if_pos leaves⟩
    by_cases words : IsCommand line
    · exact .inr (.inl ⟨rfl, words, (if_neg leaves).trans (if_pos words)⟩)
    by_cases blank : IsBlank line
    · exact .inr (.inr (.inl ⟨rfl, blank, (if_neg leaves).trans ((if_neg words).trans (if_pos blank))⟩))
    refine .inr (.inr (.inr ⟨fun _ => ⟨leaves, words, blank⟩, ?_⟩))
    exact (if_neg leaves).trans ((if_neg words).trans (if_neg blank))

theorem Account.cons {t : Transcript} {episodes : List Episode}
    {leaving : Leaving} {x : Episode} (right : x.Right)
    (h : Account echo (x.carryOut echo p) events t episodes leaving) :
    Account echo p (x.events ++ events) { t with asked := x.prompts ++ t.asked } (x :: episodes)
      leaving where
  right := List.forall_mem_cons.2 ⟨right, h.right⟩
  left := h.left
  read := by
    rw [h.read, List.flatMap_cons]
    simp only [List.append_assoc]
  asked := by
    rw [h.asked, List.flatMap_cons]
    simp only [List.append_assoc]
  final := h.final

/-- Wherever the loop stands, what it has in hand and what it will still read can be accounted for. -/
theorem exists_account (echo : Bool) (events : List LineEvent) (p : Prompt) (lines : List Text)
    (clean : p.buffer = []) (pending : Pending lines) :
    ∃ episodes leaving,
      Account echo p (lines.map .line ++ events) (resumed echo lines events p) episodes leaving := by
  induction events generalizing p lines with
  | nil =>
    have shown := holding_asked echo lines p
    refine ⟨[], .exhausted lines, nofun, ⟨pending, rfl⟩, rfl, ?_, shown⟩
    simp only [resumed, loop, List.reverse_cons, List.reverse_reverse, ask_holding]
    exact (promptsFor_succ lines.length).symm
  | cons e rest ih =>
    have split : lines.map .line ++ e :: rest = lines.map .line ++ [e] ++ rest := by simp
    rw [resumed_cons, split]
    -- The loop is left here with the lines in hand.
    have leaves (l : Leaving) (right : l.Right rest) (held : l.lines = lines) :
        Account echo p (l.events ++ rest)
          ⟨p.holding echo (lines.length + 1) lines, promptsFor (lines.length + 1), rest⟩ [] l := by
      rw [← held]
      exact ⟨nofun, right, rfl, rfl, rfl⟩
    -- An episode ends here, and the loop goes on with nothing in hand.
    have ends (x : Episode) (right : x.Right) (read : x.events = lines.map .line ++ [e]) :
        let q := x.effect (p.shows echo (promptsFor (lines.length + 1)))
        ∃ episodes leaving, Account echo p (lines.map .line ++ [e] ++ rest)
          (loop echo rest (promptsFor (lines.length + 1)).reverse q) episodes leaving := by
      dsimp only
      have prompts : promptsFor (lines.length + 1) = x.prompts := by
        rw [Episode.prompts, read, List.length_append, List.length_map, List.length_singleton]
      have clean' : (x.carryOut echo p).buffer = [] := (buffer_carryOut echo p x).trans clean
      obtain ⟨episodes, leaving, account⟩ := ih _ [] clean' pending_nil
      have whole := account.cons right
      rw [resumed_nil clean'] at whole
      rw [prompts, ← read, loop_asked, List.reverse_reverse]
      exact ⟨x :: episodes, leaving, whole⟩
    have emptied := @holding_emptied echo p clean (lines.length + 1) lines
    cases e with
    | ended => exact ⟨[], _, leaves (.ended lines) pending rfl⟩
    | failed => exact ⟨[], _, leaves (.failed lines) pending rfl⟩
    | aborted =>
      have account := ends (.aborted lines) pending rfl
      rwa [← emptied] at account
    | line line =>
      rcases actionFor_line lines line with ⟨rfl, word, action⟩ | ⟨rfl, words, action⟩ |
        ⟨rfl, blank, action⟩ | ⟨begins, action⟩
      · rw [action]
        exact ⟨[], _, leaves (.word line) word rfl⟩
      · have account := ends (.command line) words rfl
        rw [← emptied] at account
        rwa [action]
      · have account := ends (.blank line) blank rfl
        rw [← emptied] at account
        rwa [action]
      · have read : (Episode.input (lines ++ [line])).events = lines.map .line ++ [.line line] := by
          simp [Episode.events]
        by_cases opened : 0 < unclosed (sourceOf (lines ++ [line]))
        · -- The line is kept with the others.
          have account := ih p (lines ++ [line]) clean (pending.concat begins opened)
          unfold resumed at account
          rw [List.length_append, List.length_singleton] at account
          rw [action, if_pos opened, ← read]
          exact account
        · have account := ends (.input (lines ++ [line])) (pending.complete begins opened) read
          rw [← emptied] at account
          rw [action, if_neg opened]
          exact account

end

/-- Every answer of the reader is accounted for, whatever they are and in whatever order they come. The
episodes follow one another without a gap or an overlap; commands and inputs are carried out in their
order and nothing else is, and the interpreter is called with the source of each input and with no other;
a prompt continues an input exactly where lines of it are in hand; and lines are given up only when the
prompt is aborted or the reader has ended or failed. -/
theorem every_line_is_taken_once (echo : Bool) (events : List LineEvent) (s : Session) :
    let t := run echo events s
    ∃ (episodes : List Episode) (leaving : Leaving) (sources : List Text) (last : Prompt),
      (∀ e ∈ episodes, e.Right) ∧ leaving.Right t.unread ∧
      events = episodes.flatMap Episode.events ++ leaving.events ++ t.unread ∧
      t.asked = episodes.flatMap Episode.prompts ++ leaving.prompts ∧
      Carried echo (start s) episodes sources last ∧
      sources = episodes.filterMap Episode.source? ∧
      t.final.session = ((last.shows echo leaving.prompts).print (utf8 "\n")).session := by
  obtain ⟨episodes, leaving, account⟩ := exists_account echo events (start s) [] rfl pending_nil
  rw [resumed_nil rfl] at account
  refine ⟨episodes, leaving, _, _, account.right, account.left, account.read, account.asked,
    carried_foldl echo episodes (start s), rfl, ?_⟩
  have final := congrArg (fun p : Prompt => (p.print (utf8 "\n")).session) account.final
  exact final

end StackScript.Prompt
