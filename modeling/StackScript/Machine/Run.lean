import StackScript.Machine.Step

/-! Runs. The host takes the lines that a program prints and may refuse them; it can
also look at the machine before each instruction. A run ends at the instruction that
ends programs, behind the last instruction, or with the first fault, and a failed
run leaves an empty stack. -/

namespace StackScript

/-- A host refuses a line with a message, or with a failure of its own that is
reported as it is. -/
inductive WriteFault where
  | message (text : Text)
  | failure (e : RuntimeError)
deriving DecidableEq

structure Host (σ : Type) where
  write : Machine → Text → σ → Except WriteFault Unit × σ
  trace : Program → Machine → Instruction → σ → σ := fun _ _ _ s => s

/-- How a run ended; `unfinished` when its fuel was used up first. -/
inductive Ending where
  | finished
  | failed (e : RuntimeError)
  | unfinished
deriving DecidableEq

namespace Machine

def writeError (p : Program) (offset : Nat) : WriteFault → RuntimeError
  | .message text => .locate p offset Opcode.print.toByte (.write text)
  | .failure e => e

def runFrom {σ : Type} (host : Host σ) (p : Program) : (fuel : Nat) → Machine → σ →
    Ending × Machine × σ
  | 0, m, s => (.unfinished, m, s)
  | fuel + 1, m, s =>
    match m.fetch p.chunk with
    | .ended => (.finished, m, s)
    | .refused op fault => (.failed (.locate p m.ip op fault), m, s)
    | .ready i =>
      let s := host.trace p m i s
      let offset := m.ip
      match m.execute p.chunk i with
      | .next m => runFrom host p fuel m s
      | .finish m => (.finished, m, s)
      | .fault f m => (.failed (.locate p offset i.op.toByte f), m, s)
      | .print line m =>
        match host.write m line s with
        | (.ok _, s) => runFrom host p fuel m s
        | (.error e, s) => (.failed (writeError p offset e), m, s)

/-- A machine at the start of a program. -/
def load (p : Program) (m : Machine) : Machine := { m.resetState with program := some p }

def run {σ : Type} (host : Host σ) (fuel : Nat) (p : Program) (m : Machine) (s : σ) :
    Ending × Machine × σ :=
  match runFrom host p fuel (m.load p) s with
  | (.failed e, m, s) => (.failed e, { m with stack := #[] }, s)
  | r => r

def noProgramMessage : Text := utf8 "nil program"

/-- More instructions than any run comes to in practice. -/
def horizon : Nat := 0x4000000000000000

def collector : Host (Array UInt8) where
  write _ line out := (.ok (), line.foldl Array.push out)

structure Glance where
  offset : Nat
  op : Opcode
  line : Int
  stack : Array Value

def watcher : Host (Array UInt8 × Array Glance) where
  write _ line s := (.ok (), line.foldl Array.push s.1, s.2)
  trace p m i s := (s.1, s.2.push ⟨m.ip, i.op, p.chunk.lineAt m.ip, m.stack⟩)

end Machine

end StackScript
