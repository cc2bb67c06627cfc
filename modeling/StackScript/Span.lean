import StackScript.Text.Basic

/-! Places in a source: a line, counted from one, and a window of byte columns
within it, counted from zero. Sums and differences of columns are kept as words of 64
bits with a sign. -/

namespace StackScript

/-- The word that an integer leaves: itself when it is one, and otherwise the one that
differs from it by a multiple of the number of words. -/
def Number.word (n : Int) : Int := (Int64.ofInt n).toInt

structure Span where
  file : Text := []
  line : Int := 0
  start : Int := 0
  stop : Int := 0
deriving DecidableEq, Inhabited

namespace Span

def display (s : Span) : Text :=
  s.file ++ utf8 ": " ++ Text.decimal s.line ++ utf8 ":" ++ Text.decimal s.start ++ utf8 ":" ++
    Text.decimal s.stop

def column (s : Span) : Int := Number.word (s.start + 1)

/-- From the first span through the last one when both are on one line, and the
first alone otherwise. -/
def join (first last : Span) : Span :=
  if last.line = first.line && first.stop < last.stop then { first with stop := last.stop } else first

end Span

end StackScript
