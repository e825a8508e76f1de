import Lockstep.Output.Writer
import Lockstep.Render.Error
import Lockstep.Target.Modifiers

/-!
# The state of a rendering

A rendering walks the source with a cursor and writes to a sink, both at once. Besides it keeps the
namespaces that the rendered body turns out to need, the imports that have been written, and the
declaration whose modifiers are being rendered.
-/

namespace Lockstep.Render

open Output Source Target Text Lockstep.Tree

structure Context where
  cursor : Cursor
  writer : Writer
  /-- The namespaces that the body needs, in the order of their first use. -/
  required : List String
  /-- What has been imported. -/
  written : List String
  /-- The declaration whose modifiers are being rendered. -/
  declaration : Option Declaration

/-- The start of a rendering. -/
def Context.start (source : String) (accepts : Bool) : Context where
  cursor := .ofText source
  writer := .new accepts "\n"
  required := []
  written := []
  declaration := none

/-- A step of a rendering. -/
abbrev Rendering := EStateM RenderError Context

/-- Add a text to a list, unless it is there. -/
def addNew (texts : List String) (text : String) : List String :=
  if texts.contains text then texts else texts ++ [text]

/-! ## Cursor and writer -/

/-- A step of the cursor. -/
def walk {α : Type} (x : Cursor.Walk α) : Rendering α := fun ctx =>
  match x ctx.cursor with
  | .ok a cursor => .ok a { ctx with cursor }
  | .error e cursor => .error (.ofCursor e) { ctx with cursor }

/-- A step of the writer. -/
def output {α : Type} (x : Writer.Write α) : Rendering α := fun ctx =>
  match x ctx.writer with
  | .ok a writer => .ok a { ctx with writer }
  | .error _ writer => .error .output { ctx with writer }

/-- Write a text. -/
def write (text : String) : Rendering Unit := output (Writer.write text)

/-- Go to an offset. -/
def jumpTo (pos : Nat) : Rendering Unit := walk (Cursor.jumpTo pos)

/-- Go to the end of the source. -/
def jumpToEnd : Rendering Unit := modify fun ctx => { ctx with cursor := ctx.cursor.toEnd }

/-- Copy the trivia ahead, up to the runs that start at the limit or after it. Returns whether there
was any. -/
def copyTriviaUntil (limit : Option Nat) : Rendering Bool := do
  let text ← walk (Cursor.skipTrivia limit)
  if text.isEmpty then return false
  write text
  return true

/-- Copy the trivia ahead. -/
def copyTrivia : Rendering Bool := copyTriviaUntil none

/-- Pass the trivia ahead, up to the runs that start at the limit or after it. -/
def skipTriviaUntil (limit : Option Nat) : Rendering Unit := do
  let _ ← walk (Cursor.skipTrivia limit)

/-- Pass the blanks ahead. -/
def skipBlanks : Rendering Unit := do
  let _ ← walk Cursor.skipBlanks

/-- Pass the rest of the line, if it is blank. -/
def skipLineRest : Rendering Bool := walk Cursor.skipLineRest

/-- Pass a token and write its replacement. -/
def swap (token replacement : String) : Rendering Unit := do
  walk (Cursor.expect token)
  write replacement

/-- Pass the text that an extent covers and write another for it. -/
def replaceExtent (extent : Extent) (text : String) : Rendering Unit := do
  let covered := ((← get).cursor.slice? extent).getD ""
  jumpTo extent.start
  swap covered text

/-- Pass a binary operator with the trivia around it and write its replacement. If `balanced`, there
is white space on both sides of the operator or on none, and if `spaced` as well, on both. -/
def swapOperator (token replacement : String) (balanced spaced : Bool) : Rendering Unit := do
  let before ← copyTrivia
  let follows := (← get).cursor.triviaFollows (byteLength token.toList)
  if balanced && !before && (spaced || follows) then write " "
  swap token replacement
  let after ← copyTrivia
  if balanced && !after && (spaced || before) then write " "

/-! ## Nodes -/

/-- Check that a node of that kind and place begins here. -/
def enter (kind : Kind) (extent : Extent) : Rendering Unit := do
  let c := (← get).cursor
  if c.hasReached extent.start then return
  throw (.desync s!"{kind.name} at offset {extent.start}" (c.excerpt extent.length)
    (.empty c.offset))

/-- Run a step from another offset and come back. -/
def revisit (pos : Nat) (x : Rendering Unit) : Rendering Unit := do
  let here := (← get).cursor.offset
  jumpTo pos
  x
  jumpTo here

/-- Run a step as part of the modifiers of a declaration. -/
def inDeclaration {α : Type} (declaration : Declaration) (x : Rendering α) : Rendering α :=
  fun ctx =>
    match x { ctx with declaration := some declaration } with
    | .ok a after => .ok a { after with declaration := ctx.declaration }
    | .error e after => .error e { after with declaration := ctx.declaration }

/-- Hold back what a step writes and return it; if the step fails, what it wrote is lost. -/
def captured (x : Rendering Unit) : Rendering String := fun ctx =>
  match x { ctx with writer := ctx.writer.openCapture } with
  | .ok _ after =>
    .ok after.writer.closeCapture.1 { after with writer := after.writer.closeCapture.2 }
  | .error e after => .error e { after with writer := after.writer.closeCapture.2 }

/-! ## Imports -/

/-- Note that the body needs a namespace. -/
def require (name : String) : Rendering Unit :=
  modify fun ctx => { ctx with required := addNew ctx.required name }

/-- Note that something is imported. Returns whether it is new. -/
def recordImport (name : String) : Rendering Bool := do
  let isNew := !(← get).written.contains name
  modify fun ctx => { ctx with written := addNew ctx.written name }
  return isNew

end Lockstep.Render
