import StackScript.Code.Opcode
import StackScript.Span
import StackScript.Value.Basic

/-! Byte code with its constant pool and the tables that lead back to the source.

The line table holds ranges of code offsets with increasing lines: a byte written
for a line that does not advance stays in the last range. The span table keeps the
order in which spans were recorded, and of the spans that cover an offset the one of
least extent is found, of equal ones the first. -/

namespace StackScript

structure LineEntry where
  line : Int
  start : Int
  stop : Int
deriving DecidableEq

structure SpanEntry where
  start : Int
  stop : Int
  span : Span
deriving DecidableEq

/-- How many offsets the range holds. Only a range that begins before the code can hold
too many for a word, and their number then wraps below zero. -/
def SpanEntry.extent (e : SpanEntry) : Int :=
  if e.start < 0 then Number.word (e.stop - e.start) else e.stop - e.start

abbrev SpanTable := Array SpanEntry

namespace SpanTable

def add (t : SpanTable) (start stop : Int) (span : Span) : SpanTable :=
  if stop ≤ start then t else t.push ⟨start, stop, span⟩

def narrower (offset : Int) (best : Option SpanEntry) (e : SpanEntry) : Option SpanEntry :=
  if offset < e.start || e.stop ≤ offset then best
  else match best with
    | some b => if e.extent < b.extent then some e else best
    | none => some e

def find? (t : SpanTable) (offset : Int) : Option Span :=
  (t.foldl (narrower offset) none).map (·.span)

end SpanTable

structure Chunk where
  code : Array UInt8 := #[]
  constants : Array Value := #[]
  lines : Array LineEntry := #[]
deriving DecidableEq

namespace Chunk

/-- As many constants as a two-byte operand can address. -/
def maxConstants : Nat := 65536

def lineAt (c : Chunk) (offset : Int) : Int :=
  ((c.lines.find? fun e => e.start ≤ offset && offset < e.stop).map (·.line)).getD 0

def continuesLine (c : Chunk) (offset : Int) : Bool :=
  0 < offset && c.lineAt offset ≠ 0 && c.lineAt offset = c.lineAt (offset - 1)

/-- The line table after one more byte at the offset `size`. -/
def extendLines (lines : Array LineEntry) (size : Nat) (line : Int) : Array LineEntry :=
  match lines.back? with
  | some last =>
    if last.line < line then lines.push ⟨line, size, size + 1⟩
    else lines.modify (lines.size - 1) fun e => { e with stop := size + 1 }
  | none => lines.push ⟨line, size, size + 1⟩

def write (c : Chunk) (b : UInt8) (line : Int) : Chunk :=
  let size := c.code.size
  { c with code := c.code.push b, lines := extendLines c.lines size line }

def highByte (n : Nat) : UInt8 := UInt8.ofNat (n / 256)

def lowByte (n : Nat) : UInt8 := UInt8.ofNat n

def writeWide (c : Chunk) (n : Nat) (line : Int) : Chunk :=
  (c.write (highByte n) line).write (lowByte n) line

def patchWide (c : Chunk) (offset n : Nat) : Chunk :=
  { c with code := (c.code.setIfInBounds offset (highByte n)).setIfInBounds (offset + 1) (lowByte n) }

def wide (high low : UInt8) : Nat := high.toNat * 256 + low.toNat

/-- The two-byte operand at an offset, where code ends with zeros. -/
def readWide (c : Chunk) (offset : Nat) : Nat :=
  wide (c.code[offset]?.getD 0) (c.code[offset + 1]?.getD 0)

def hasRoom (c : Chunk) : Bool := c.constants.size < maxConstants

def addConstant (c : Chunk) (v : Value) : Chunk := { c with constants := c.constants.push v }

def writeConstant (c : Chunk) (v : Value) (line : Int) : Chunk :=
  let index := c.constants.size
  ((c.addConstant v).write Opcode.constant.toByte line).writeWide index line

end Chunk

def fullPoolMessage : Text := utf8 "too many constants in one chunk"

structure Program where
  file : Text
  chunk : Chunk
  spans : SpanTable := #[]
deriving DecidableEq

def Chunk.sizes (c : Chunk) : Text :=
  utf8 " (" ++ Text.natural c.code.size ++ utf8 " bytes, " ++ Text.natural c.constants.size ++
    utf8 " constants)"

def Program.display (p : Program) : Text := utf8 "program " ++ p.file ++ p.chunk.sizes

end StackScript
