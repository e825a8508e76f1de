import Lockstep.Diagnostic.Message
import Lockstep.Text.Extent

/-!
# Diagnostics

A diagnostic is a message with its text filled in, and as much of its place as is known. A batch
collects diagnostics and sorts them by file and then by place; those of one place keep their order.
-/

namespace Lockstep

open Diagnostic Text

/-- A reported condition. -/
structure Diagnostic where
  file : Option String
  span : Option Span
  text : String
  code : Nat
  category : Category
  deriving DecidableEq, Repr

namespace Diagnostic

/-- A message without a place. -/
def ofMessage (m : Message) (args : List String) : Diagnostic :=
  ⟨none, none, m.text args, m.code, m.category⟩

def isError (d : Diagnostic) : Bool := d.category == .error

/-- Category, number and text. -/
def summary (d : Diagnostic) : String := s!"{d.category.word} JV{d.code}: {d.text}"

/-- The summary after file and offset, if a file is known. -/
def display (d : Diagnostic) : String :=
  match d.file, d.span with
  | some file, some span => s!"{file}({span.start}): {d.summary}"
  | some file, none => s!"{file}: {d.summary}"
  | none, _ => d.summary

/-- The offset that a diagnostic is sorted by. -/
def start (d : Diagnostic) : Nat :=
  match d.span with
  | some span => span.start
  | none => 0

/-- The order of files: none before any. -/
def fileLe : Option String → Option String → Bool
  | none, _ => true
  | some _, none => false
  | some a, some b => decide (a ≤ b)

/-- By file, and in one file by offset. -/
def le (a b : Diagnostic) : Bool :=
  if a.file == b.file then a.start ≤ b.start else fileLe a.file b.file

/-- Sort by file and offset; diagnostics of one place keep their order. -/
def sort (ds : List Diagnostic) : List Diagnostic := ds.mergeSort le

/-- The number of errors. -/
def errorCount (ds : List Diagnostic) : Nat := ds.countP isError

end Diagnostic

end Lockstep
