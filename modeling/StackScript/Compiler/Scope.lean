import StackScript.Text.Basic

/-! The local variables in scope. The innermost stands first, and the slot of a
local on the stack is the number of locals outside it. -/

namespace StackScript

structure Local where
  name : Text
  depth : Nat
  ready : Bool := false
deriving DecidableEq

structure Scope where
  locals : List Local := []
  depth : Nat := 0
deriving DecidableEq

namespace Scope

/-- As many locals as a one-byte slot can address. -/
def maxLocals : Nat := 256

def enter (s : Scope) : Scope := { s with depth := s.depth + 1 }

def leave (s : Scope) : Scope :=
  let depth := s.depth - 1
  ⟨s.locals.dropWhile (depth < ·.depth), depth⟩

def owned (s : Scope) : Nat := (s.locals.takeWhile (s.depth - 1 < ·.depth)).length

def declaredHere (s : Scope) (name : Text) : Bool :=
  (s.locals.takeWhile (s.depth ≤ ·.depth)).any (·.name = name)

/-- A local takes the next slot but is not yet ready. -/
def declare? (s : Scope) (name : Text) : Option Scope :=
  if s.locals.length < maxLocals then some { s with locals := ⟨name, s.depth, false⟩ :: s.locals }
  else none

def markReady (s : Scope) : Scope :=
  match s.locals with
  | l :: rest => { s with locals := { l with ready := true } :: rest }
  | [] => s

def find? (name : Text) : List Local → Option (Nat × Local)
  | [] => none
  | l :: rest => if l.name = name then some (rest.length, l) else find? name rest

def resolve? (s : Scope) (name : Text) : Option (Nat × Local) := find? name s.locals

end Scope

end StackScript
