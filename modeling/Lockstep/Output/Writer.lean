import Lockstep.Output.Indent

/-!
# The writer

A writer appends text to a sink, or to the innermost of the captures that are open. It knows of
each of them whether a line starts there, and puts the indentation in front of every line that gets
content. Captured text is indented when it is first written, so it is put back as it stands.

A sink may refuse writes. A refused write changes nothing but the count of refusals; text that goes
into a capture is never refused, and an empty text is no write.
-/

namespace Lockstep.Output

open Text

/-- Where the text goes in the end. -/
structure Sink where
  accepts : Bool
  received : String
  /-- The number of writes that were refused. -/
  refused : Nat
  deriving DecidableEq, Repr

/-- A sink that has received nothing. -/
def Sink.new (accepts : Bool) : Sink := ⟨accepts, "", 0⟩

/-- Text held back, and whether a line starts after it. -/
structure Capture where
  text : String
  lineStart : Bool
  deriving DecidableEq, Repr

structure Writer where
  sink : Sink
  /-- Whether a line starts in the sink. -/
  sinkLineStart : Bool
  /-- The open captures, innermost first. -/
  captures : List Capture
  /-- The number of spaces before each line. -/
  indentation : Nat
  /-- What ends a line. -/
  lineEnd : String
  deriving DecidableEq, Repr

/-- The sink would not take a write. -/
structure Refused where
  deriving DecidableEq, Repr

namespace Writer

/-- A writer at the start of a sink. -/
def new (accepts : Bool) (lineEnd : String) : Writer := ⟨.new accepts, true, [], 0, lineEnd⟩

/-- Whether a line starts where the next text goes. -/
def atLineStart (w : Writer) : Bool :=
  match w.captures with
  | inner :: _ => inner.lineStart
  | [] => w.sinkLineStart

/-- A step of the writer. -/
abbrev Write := EStateM Refused Writer

/-- Append a text as it stands; `lineStart` says whether a line starts after it. -/
def emit (text : String) (lineStart : Bool) : Write Unit := fun w =>
  match w.captures with
  | inner :: outer =>
    .ok () { w with captures := ⟨inner.text ++ text, lineStart⟩ :: outer }
  | [] =>
    if w.sink.accepts then
      .ok () { w with
        sink := { w.sink with received := w.sink.received ++ text }, sinkLineStart := lineStart }
    else
      .error {} { w with sink := { w.sink with refused := w.sink.refused + 1 } }

/-- Append a text, indented. -/
def write (text : String) : Write Unit := fun w =>
  if text.isEmpty then .ok () w
  else
    let cs := text.toList
    emit (String.ofList (indented w.indentation w.atLineStart cs)) (endsLine w.atLineStart cs) w

/-- Append a text, indented, and end the line. -/
def writeLine (text : String) : Write Unit := do
  write text
  emit (← get).lineEnd true

/-- End the line, unless one starts here. -/
def ensureLineStart : Write Unit := do
  unless (← get).atLineStart do writeLine ""

/-- Append a text as it stands, as captured text is put back. -/
def writeRaw (text : String) : Write Unit :=
  if text.isEmpty then pure () else emit text (endsLine false text.toList)

/-! ## Captures and indentation -/

/-- Hold back what is written from here on. -/
def openCapture (w : Writer) : Writer :=
  { w with captures := ⟨"", w.atLineStart⟩ :: w.captures }

/-- End the innermost capture and give its text; no text if none is open. -/
def closeCapture (w : Writer) : String × Writer :=
  match w.captures with
  | inner :: outer => (inner.text, { w with captures := outer })
  | [] => ("", w)

def indentBy (amount : Nat) (w : Writer) : Writer :=
  { w with indentation := w.indentation + amount }

def setIndentation (value : Nat) (w : Writer) : Writer := { w with indentation := value }

@[simp] theorem closeCapture_openCapture (w : Writer) : w.openCapture.closeCapture = ("", w) := rfl

end Writer

end Lockstep.Output
