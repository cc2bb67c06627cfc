import StackScript.Code.Chunk
import StackScript.Text.Utf8
import StackScript.Value.Basic

/-! Readable listings of byte code, one instruction a line: offset, source line,
operation and operand. The line is shown where it changes. A reserved byte is listed
by its number; an instruction that the code cuts short stops the listing. The operands
are read here by themselves, operation by operation. -/

namespace StackScript

inductive ListingFault where
  | outOfRange (offset : Int)
  | truncated
  | noChunk
  | noProgram
deriving DecidableEq

def ListingFault.message : ListingFault → Text
  | .outOfRange offset => utf8 "offset " ++ Text.decimal offset ++ utf8 " out of range"
  | .truncated => utf8 "unexpected end of bytecode"
  | .noChunk => utf8 "nil chunk"
  | .noProgram => utf8 "no program loaded"

namespace Listing

def lineColumn (c : Chunk) (offset : Nat) : Text :=
  if c.continuesLine offset then utf8 "|"
  else
    let line := c.lineAt offset
    if 0 < line then Text.decimal line else utf8 "-"

def constantText (c : Chunk) (index : Nat) : Text :=
  match c.constants[index]? with
  | some v => v.listed
  | none => utf8 "<invalid>"

def readByte (code : Array UInt8) (ip : Nat) : Except ListingFault (Nat × Nat) :=
  match code[ip]? with
  | some b => .ok (b.toNat, ip + 1)
  | none => .error .truncated

def readPair (code : Array UInt8) (ip : Nat) : Except ListingFault (Nat × Nat) :=
  match code[ip]?, code[ip + 1]? with
  | some high, some low => .ok (Chunk.wide high low, ip + 2)
  | _, _ => .error .truncated

def leap (distance offset : Nat) (target : Int) : Text :=
  Text.natural distance ++ utf8 " ; " ++ Text.natural offset ++ utf8 " -> " ++ Text.decimal target

def operands (c : Chunk) (offset : Nat) (op : Opcode) : Except ListingFault (Text × Nat) :=
  let ip := offset + 1
  match op with
  | .constant => (readPair c.code ip).map fun (index, next) =>
    let n := Text.natural index
    (n ++ utf8 " ; const[" ++ n ++ utf8 "]=" ++ constantText c index, next)
  | .defGlobal | .getGlobal | .setGlobal => (readPair c.code ip).map fun (index, next) =>
    (Text.natural index ++ utf8 " ; name=" ++ constantText c index, next)
  | .getLocal | .setLocal => (readByte c.code ip).map fun (slot, next) => (Text.natural slot, next)
  | .jump | .jumpFalse => (readPair c.code ip).map fun (distance, next) =>
    (leap distance offset (next + distance), next)
  | .loop => (readPair c.code ip).map fun (distance, next) =>
    (leap distance offset (next - distance), next)
  | _ => .ok ([], ip)

def row (c : Chunk) (offset : Nat) (label detail : Text) : Text :=
  Text.zeroPadded 4 offset ++ utf8 " " ++ Text.padLeft 4 (lineColumn c offset) ++ utf8 " " ++
    Text.padRight 16 label ++ (if detail = [] then [] else utf8 " " ++ detail) ++ utf8 "\n"

def reservedLabel (b : UInt8) : Text := utf8 "OP_0x" ++ (Text.hex 2 b.toNat).map Text.upperAscii

def instruction (c : Chunk) (offset : Int) : Except ListingFault (Text × Nat) :=
  if offset < 0 then .error (.outOfRange offset)
  else
    let place := offset.toNat
    match c.code[place]? with
    | none => .error (.outOfRange offset)
    | some b =>
      match Opcode.ofByte? b with
      | none => .ok (row c place (reservedLabel b) [], place + 1)
      | some op => (operands c place op).map fun (detail, next) => (row c place op.label detail, next)

/-- Like `instruction`, but a fault has a row of its own and is skipped by its
encoded length. -/
def instructionOrFault (c : Chunk) (offset : Int) : Text × Nat :=
  match instruction c offset with
  | .ok r => r
  | .error e =>
    let row := Text.zeroPadded 4 offset ++ utf8 " <" ++ e.message ++ utf8 ">\n"
    match offset, c.code[offset.toNat]? with
    | .ofNat n, some b => (row, min (n + instructionLength b) c.code.size)
    | _, _ => (row, c.code.size)

def heading (label : Text) (c : Chunk) : Text :=
  utf8 "== " ++ (if label = [] then utf8 "<script>" else label) ++ c.sizes ++ utf8 " ==\n"

/-- The rows from an offset on, before the rest that is already listed in reverse.
Every row advances, so `fuel` above the size of the code lists it all. -/
def rowsFrom (c : Chunk) : (fuel : Nat) → (offset : Nat) → (done : List Text) →
    List Text × Option ListingFault
  | 0, _, done => (done.reverse, none)
  | fuel + 1, offset, done =>
    if c.code.size ≤ offset then (done.reverse, none)
    else match instruction c offset with
      | .ok (row, next) => rowsFrom c fuel next (row :: done)
      | .error e => (done.reverse, some e)

/-- The listing of a chunk under a label. On a fault it holds what came before. -/
def chunk (label : Text) (c : Chunk) : Text × Option ListingFault :=
  let (rows, fault) := rowsFrom c (c.code.size + 1) 0 []
  ((heading label c :: rows).flatten, fault)

end Listing

end StackScript
