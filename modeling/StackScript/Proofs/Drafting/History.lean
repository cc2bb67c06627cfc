import StackScript.Proofs.Parsing.Program

/-! A compilation that remembers. After every single action it is noted what the draft has become,
whether the action went well or not; and every call on a declaration is noted when it ends. -/

namespace StackScript

open Build

/-- A compilation at one moment: its draft, and the local whose initial value is being read. -/
structure Moment where
  draft : Draft
  pending : Option Text := none

/-- One call on a declaration: the draft that it began with, and the one that it ended with. -/
structure DeclarationCall where
  before : Draft
  after : Draft

/-- What a compilation has gone through, the latest first. -/
structure History where
  now : Moment
  past : List Moment := []
  calls : List DeclarationCall := []

namespace History

def start (file : Text) (tokens : List Token) : History where
  now.draft := Draft.start file tokens

def moments (h : History) : List Moment := h.now :: h.past

def see (h : History) (m : Moment) : History := { h with now := m, past := h.moments }

def close (h : History) (before after : Draft) : History :=
  { h.see { h.now with draft := after } with calls := ⟨before, after⟩ :: h.calls }

end History

/-- A local is pending from the moment it takes its slot until it becomes ready. -/
instance : Carrier History where
  draft h := h.now.draft
  see o d h :=
    match o with
    | .action => h.see { h.now with draft := d }
    | .declared name => h.see ⟨d, some name⟩
    | .ready => h.see ⟨d, none⟩
    | .ended before _ => h.close before d
  act x h :=
    match x.run h.now.draft with
    | .ok a d => .ok a (h.see { h.now with draft := d })
    | .error e d => .error e (h.see { h.now with draft := d })
  stuck d := d.report d.current .tooDeep
  draft_see o _ _ := by cases o <;> rfl
  run_act _ _ := rfl

abbrev Recorded := Compiling History

namespace Recorded

def text : (fuel : Nat) → Recorded Unit := Build.text

theorem run_act {α : Type} (x : Build α) (h : History) :
    (act x : Recorded α).run h =
      match x.run h.now.draft with
      | .ok a d => .ok a (h.see { h.now with draft := d })
      | .error e d => .error e (h.see { h.now with draft := d }) := rfl

theorem run_declaration (expr stmt : Recorded Unit) (h : History) :
    (declaration expr stmt).run h =
      let d := h.now.draft
      match (do if ← act (take .kwLet) then letDeclaration expr else stmt : Recorded Unit).run h with
      | .ok _ h' => .ok () (h'.close d (h'.now.draft.recordSpan d.chunk.code.size
          (d.current.span.join h'.now.draft.previous.span)))
      | .error _ h' => .ok () (h'.close d h'.now.draft.synchronize) := by
  rw [run_declaration_eq]
  dsimp only
  generalize EStateM.run _ h = r
  cases r <;> rfl

end Recorded

end StackScript
