import Std.Data.TreeMap
import StackScript.Code.Listing
import StackScript.Machine.Fault

/-! The state of the stack machine. Globals outlive a run; the rest of the state is
set up anew by each run. Names of globals are kept in byte order. -/

namespace StackScript

abbrev Globals := Std.TreeMap Text Value compare

/-- `limit` is zero when the number of instructions is not limited. -/
structure Machine where
  program : Option Program := none
  ip : Nat := 0
  stack : Array Value := #[]
  count : Nat := 0
  globals : Globals := ∅
  maxStack : Nat := 1024
  limit : Nat := 0

namespace Machine

def defaultMaxStack : Nat := 1024

/-- A cap below one is the default cap. -/
def setMaxStack (n : Int) (m : Machine) : Machine :=
  { m with maxStack := if n < 1 then defaultMaxStack else n.toNat }

def setLimit (n : Int) (m : Machine) : Machine := { m with limit := n.toNat }

def resetState (m : Machine) : Machine := { m with ip := 0, stack := #[], count := 0 }

def reset (m : Machine) : Machine := { m.resetState with globals := ∅ }

def duplicate (m : Machine) : Machine :=
  { globals := m.globals, maxStack := m.maxStack, limit := m.limit }

def globalNames (m : Machine) : List Text := m.globals.keys

def listing (m : Machine) : Text × Option ListingFault :=
  match m.program with
  | some p => Listing.chunk p.file p.chunk
  | none => ([], some .noProgram)

end Machine

end StackScript
