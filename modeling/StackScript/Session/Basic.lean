import StackScript.Session.Interpreter

/-! Sessions: several interpreters, two output channels and two error channels, and
calls on the interpreters. A call may come from inside a write to the primary channel
that another call makes; the interpreter that is running is busy then and refuses to
run, to be reset or to be duplicated. A call may also make writes to the primary
channel fail from some write on. -/

namespace StackScript

inductive Call where
  | interpret (file source : Text)
  | reset
  | duplicate
  | globals
  | listing
  | setOutput (c : Channel)
  | setErrorOutput (c : Channel)

/-- From which write to the primary channel on, counted from zero, writes fail and
how. -/
structure Refusal where
  first : Nat
  fault : WriteFault

/-- A call on one of the interpreters, with the calls made inside its writes, write by
write. -/
inductive Request where
  | mk (target : Nat) (call : Call) (inside : List (List Request)) (refusal : Option Refusal)

inductive Reply where
  | interpreted (outcome : Outcome) (lastError : Option InputError)
  | done
  | refused (message : Text)
  | created (index : Nat)
  | names (ns : List Text)
  | listing (text : Text) (fault : Option ListingFault)

/-- A reply with the answers of the calls made inside, in a list where there were to
be any. -/
inductive Answer where
  | mk (reply : Reply) (inside : Option (List Answer))

structure Gate where
  writes : Nat := 0
  refusal : Option Refusal := none
  inside : List Answer := []

structure Session where
  interpreters : Array Interpreter
  gate : Gate := {}
  out : Array UInt8 := #[]
  err : Array UInt8 := #[]
  outSecondary : Array UInt8 := #[]
  errSecondary : Array UInt8 := #[]
  disk : Text → Option Text := fun _ => none
  fuel : Nat := Machine.horizon

namespace Session

def new (options : Options) : Session := { interpreters := #[.new options] }

def append (buffer : Array UInt8) (t : Text) : Array UInt8 := t.foldl Array.push buffer

def print (t : Text) (s : Session) : Session := { s with out := append s.out t }

def complain (c : Channel) (t : Text) (s : Session) : Session :=
  match c with
  | .primary => { s with err := append s.err t }
  | .secondary => { s with errSecondary := append s.errSecondary t }

abbrev Inside := Nat → Session → List Answer × Session

def undisturbed : Inside := fun _ s => ([], s)

def letIn (inside : Inside) (n : Nat) (s : Session) : Session :=
  let (answers, s) := inside n s
  { s with gate := { s.gate with inside := s.gate.inside ++ answers } }

/-- One write to a channel. A write counts from when it begins, so those made inside
it come after it. -/
def write (inside : Inside) (c : Channel) (t : Text) (s : Session) :
    Except WriteFault Unit × Session :=
  match c with
  | .secondary => (.ok (), { s with outSecondary := append s.outSecondary t })
  | .primary =>
    let n := s.gate.writes
    let s := letIn inside n { s with gate := { s.gate with writes := n + 1 } }
    match s.gate.refusal with
    | some r => if r.first ≤ n then (.error r.fault, s) else (.ok (), s.print t)
    | none => (.ok (), s.print t)

def modify (target : Nat) (f : Interpreter → Interpreter) (s : Session) : Session :=
  { s with interpreters := s.interpreters.modify target f }

def channelOf (target : Nat) (s : Session) : Channel :=
  (s.interpreters[target]?.map (·.out)).getD .primary

def writeFrom (inside : Inside) (target : Nat) (t : Text) (s : Session) :
    Except WriteFault Unit × Session :=
  s.write inside (s.channelOf target) t

/-- Shows a diagnostic where the errors of an interpreter go. -/
def report (target : Nat) (d : Diagnostic) (s : Session) : Session :=
  match s.interpreters[target]? with
  | some i => s.complain i.err (i.render s.disk d)
  | none => s

/-- A running program writes through its interpreter, which holds the current
machine while calls are made inside the write. -/
def host (inside : Inside) (target : Nat) (debug : Bool) : Host Session where
  write m t s :=
    (s.modify target ({ · with machine := m })).writeFrom inside target t
  trace p m _ s :=
    if debug then
      match s.interpreters[target]? with
      | some i => s.complain i.err (traceRows p m)
      | none => s
    else s

def dumpTokens (inside : Inside) (target : Nat) : List Text → Session → Session
  | [], s => s
  | row :: rows, s => dumpTokens inside target rows (s.writeFrom inside target row).2

def release (target : Nat) (s : Session) : Session := s.modify target ({ · with busy := false })

def failWith (target : Nat) (e : InputError) (s : Session) : Session :=
  s.modify target ({ · with lastError := some e })

def runProgram (inside : Inside) (target : Nat) (p : Program) (s : Session) : Outcome × Session :=
  match s.interpreters[target]? with
  | none => (.unknown, s)
  | some i =>
    let machine := i.machine
    let debug := i.options.debug
    match machine.run (host inside target debug) s.fuel p s with
    | (ending, machine, s) =>
      let s := s.modify target ({ · with machine })
      match ending with
      | .finished => (.ok, s)
      | .failed e => (.runtimeError, (s.failWith target (.runtime e)).report target e.diagnostic)
      | .unfinished => (.unknown, s)

def runInput (inside : Inside) (target : Nat) (printTokens : Bool) (file source : Text)
    (s : Session) : Outcome × Session :=
  let s := if printTokens then dumpTokens inside target (TokenDump.rows file source) s else s
  match compile file source with
  | .error ds =>
    let s := s.failWith target (.faults ds)
    (.compileError, ds.foldl (fun s d => s.report target d) s)
  | .ok p => s.runProgram inside target p

def interpret (inside : Inside) (target : Nat) (file source : Text) (s : Session) :
    Outcome × Session :=
  match s.interpreters[target]? with
  | none => (.unknown, s)
  | some i =>
    if i.busy then
      (.runtimeError, (s.failWith target .busy).report target { message := busyMessage })
    else
      let printTokens := i.options.printTokens
      let s := s.modify target (·.accept file source)
      let (outcome, s) := s.runInput inside target printTokens file source
      (outcome, s.release target)

def lastError (target : Nat) (s : Session) : Option InputError :=
  (s.interpreters[target]?).bind (·.lastError)

def reset (target : Nat) (s : Session) : Reply × Session :=
  match s.interpreters[target]? with
  | none => (.done, s)
  | some i =>
    if i.busy then (.refused busyMessage, s)
    else (.done, s.modify target fun i => { i with machine := i.machine.reset })

def duplicate (target : Nat) (s : Session) : Reply × Session :=
  match s.interpreters[target]? with
  | none => (.done, s)
  | some i =>
    if i.busy then (.refused (utf8 "cannot duplicate: " ++ busyMessage), s)
    else (.created s.interpreters.size, { s with interpreters := s.interpreters.push i.duplicate })

def globalNames (target : Nat) (s : Session) : List Text :=
  (s.interpreters[target]?).elim [] (·.machine.globalNames)

def listing (target : Nat) (s : Session) : Text × Option ListingFault :=
  (s.interpreters[target]?).elim ([], none) (·.machine.listing)

def call (inside : Inside) (target : Nat) (c : Call) (s : Session) : Reply × Session :=
  match c with
  | .interpret file source =>
    let (outcome, s) := s.interpret inside target file source
    (.interpreted outcome (s.lastError target), s)
  | .reset => s.reset target
  | .duplicate => s.duplicate target
  | .globals => (.names (s.globalNames target), s)
  | .listing =>
    let (text, fault) := s.listing target
    (.listing text fault, s)
  | .setOutput c => (.done, s.modify target ({ · with out := c }))
  | .setErrorOutput c => (.done, s.modify target (·.redirectErrors c))

mutual

/-- Makes a call. What it says about writes ends with it. -/
def request : Request → Session → Answer × Session
  | .mk target c inside refusal, s =>
    if inside.isEmpty && refusal.isNone then
      let (reply, s) := s.call undisturbed target c
      (.mk reply none, s)
    else
      let before := s.gate
      let (reply, s) := { s with gate := { refusal } }.call (requestsAt inside) target c
      (.mk reply (if inside.isEmpty then none else some s.gate.inside), { s with gate := before })

def requests : List Request → Session → List Answer × Session
  | [], s => ([], s)
  | r :: rs, s =>
    let (answer, s) := request r s
    let (answers, s) := requests rs s
    (answer :: answers, s)

def requestsAt : List (List Request) → Inside
  | [], _, s => ([], s)
  | rs :: _, 0, s => requests rs s
  | _ :: later, n + 1, s => requestsAt later n s

end

def drain (s : Session) : Session :=
  { s with out := #[], err := #[], outSecondary := #[], errSecondary := #[] }

end Session

end StackScript
