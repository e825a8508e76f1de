import Lockstep.Text.Bytes

/-!
# Extents and spans

Two ways to mark a part of a text by byte offsets.

- `Extent`: where a syntax node starts and stops. Nothing orders the two offsets: an extent is
  data that was read, and may be malformed.
- `Span`: a start and a length, as reports give them. Offsets are 32 bits wide, so the length of a
  malformed extent wraps round.
-/

namespace Lockstep.Text

/-- The number of values of a 32-bit offset. -/
def offsetCount : Nat := 4294967296

/-- A part of a text, by its first offset and its length. -/
structure Span where
  start : Nat
  length : Nat
  deriving DecidableEq, Repr

namespace Span

/-- The empty span at an offset. -/
def empty (pos : Nat) : Span := ⟨pos, 0⟩

/-- One past the last offset, in 32 bits. -/
def stop (s : Span) : Nat := (s.start + s.length) % offsetCount

def isEmpty (s : Span) : Bool := s.length == 0

def contains (s : Span) (pos : Nat) : Bool := s.start ≤ pos && pos < s.stop

/-- The span as a half-open interval. -/
def interval (s : Span) : String := s!"[{s.start}, {s.stop})"

end Span

/-- A part of a text, by its first offset and the one past its last. -/
structure Extent where
  pos : UInt32
  stop : UInt32
  deriving DecidableEq, Repr

namespace Extent

/-- The extent from one offset to another. -/
def ofNat (pos stop : Nat) : Extent := ⟨.ofNat pos, .ofNat stop⟩

/-- The offset of the first byte. -/
def start (e : Extent) : Nat := e.pos.toNat

/-- The distance from first to last offset, in 32 bits. -/
def length (e : Extent) : Nat := (e.stop - e.pos).toNat

def isEmpty (e : Extent) : Bool := e.pos == e.stop

def contains (e : Extent) (pos : Nat) : Bool := e.start ≤ pos && pos < e.stop.toNat

def toSpan (e : Extent) : Span := ⟨e.start, e.length⟩

/-- The two offsets with two dots between them. -/
def dotted (e : Extent) : String := s!"{e.pos.toNat}..{e.stop.toNat}"

/-- The part of `text` that the extent covers, if it lies inside the text and cuts no character. -/
def slice? (e : Extent) (text : List Char) : Option (List Char) :=
  if e.pos ≤ e.stop then do
    let start ← charsIn? text e.start
    let count ← charsIn? (text.drop start) e.length
    some ((text.drop start).take count)
  else none

/-- Offsets in order are apart by the length. -/
theorem start_add_length {e : Extent} (h : e.pos ≤ e.stop) : e.start + e.length = e.stop.toNat := by
  have := UInt32.le_iff_toNat_le.1 h
  simp only [start, length, UInt32.toNat_sub_of_le _ _ h]
  omega

end Extent

/-- The extent that a span covers. -/
def Span.toExtent (s : Span) : Extent := .ofNat s.start s.stop

end Lockstep.Text
