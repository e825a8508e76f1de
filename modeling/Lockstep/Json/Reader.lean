import Lockstep.Json.Written

/-!
# Reading JSON

The tokens of a text are read one by one. What is kept between two tokens is the way out of the
value that is being read: the places in the containers around it, innermost first.

- `Json.State.next?`: how a token changes the state.
- `Json.written?`: a text that is one value, with white space around it.
- `Json.parse?`: the value that is read.
-/

namespace Lockstep.Json

/-- A place for a value inside a container, with what stands before it, nearest first. -/
inductive Place where
  | item (before : List Written)
  | member (before : List (List Piece × Written)) (name : List Piece)
  deriving Inhabited

/-- What has been read, by what may follow it. -/
inductive State where
  /-- A value must follow. -/
  | value (outer : List Place)
  /-- An array has just been opened. -/
  | firstItem (outer : List Place)
  /-- An object has just been opened. -/
  | firstName (outer : List Place)
  /-- The name of a further member must follow. -/
  | name (outer : List Place) (before : List (List Piece × Written))
  /-- A colon must follow. -/
  | colon (outer : List Place) (before : List (List Piece × Written)) (name : List Piece)
  /-- A value is complete. -/
  | complete (outer : List Place) (value : Written)
  deriving Inhabited

namespace State

/-- The token begins a value. -/
def begin? (outer : List Place) : Token → Option State
  | .openObject => some (.firstName outer)
  | .openArray => some (.firstItem outer)
  | .scalar v => some (.complete outer (.scalar v))
  | _ => none

/-- The token goes on after a complete value. -/
def continue? (v : Written) : List Place → Token → Option State
  | .item before :: outer, .comma => some (.value (.item (v :: before) :: outer))
  | .item before :: outer, .closeArray => some (.complete outer (.array (v :: before).reverse))
  | .member before n :: outer, .comma => some (.name outer ((n, v) :: before))
  | .member before n :: outer, .closeObject =>
    some (.complete outer (.object ((n, v) :: before).reverse))
  | _, _ => none

/-- The state after a token. -/
def next? : State → Token → Option State
  | .value outer, t => begin? outer t
  | .firstItem outer, .closeArray => some (.complete outer (.array []))
  | .firstItem outer, t => begin? (.item [] :: outer) t
  | .firstName outer, .closeObject => some (.complete outer (.object []))
  | .firstName outer, .scalar (.string n) => some (.colon outer [] n)
  | .name outer before, .scalar (.string n) => some (.colon outer before n)
  | .colon outer before n, .colon => some (.value (.member before n :: outer))
  | .complete outer v, t => continue? v outer t
  | _, _ => none

/-- What has been read, if nothing is missing. -/
def result? : State → Option Written
  | .complete [] v => some v
  | _ => none

end State

/-- A text by its containers. -/
def written? (text : String) : Option Written := do
  let tokens ← tokens? text.toList
  let last ← tokens.foldlM State.next? (.value [])
  last.result?

/-- The value that a text stands for, as far as it is read. With a limit, no more containers than
that may be nested in what is read. -/
def parse? (limit : Option Nat) (shape : Shape) (text : String) : Option Json := do
  let written ← written? text
  written.value? limit shape

end Lockstep.Json
