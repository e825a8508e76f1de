import Lockstep.Json.Token

/-!
# JSON as it is written

What is written need not stand for a value: a number may be too large, half of a surrogate pair may
stand alone, or containers may nest too deep. That matters only where the text is read. A record is
read field by field, and its other members have to be well formed and nothing more.

- `Json.Shape`: what is read of a text.
- `Written.value?`: the value that is read.
-/

namespace Lockstep.Json

/-- A text by its containers. -/
inductive Written where
  | scalar (value : Scalar)
  | array (items : List Written)
  | object (members : List (List Piece × Written))
  deriving Inhabited, Repr

/-- What is read of a text: all of it, the fields of a record, or each item of a list. -/
inductive Shape where
  | whole
  | record (fields : List (String × Shape))
  | list (item : Shape)
  deriving Inhabited, Repr

namespace Shape

/-- What is read of the first item of an array. A record may be written as an array of its
fields. -/
def head : Shape → Shape
  | .list item => item
  | .record ((_, field) :: _) => field
  | _ => .whole

/-- What is read of the items after the first. -/
def tail : Shape → Shape
  | .record (_ :: fields) => .record fields
  | shape => shape

/-- What is read of a member of an object; none if the member is not read. -/
def member? (name : String) : Shape → Option Shape
  | .record fields => fields.lookup name
  | _ => some .whole

end Shape

mutual

/-- The value that is read. With a limit, no more containers than that may be nested in what is
read. -/
def Written.value? (limit : Option Nat) (shape : Shape) : Written → Option Json
  | .scalar s => s.value?
  | .array written =>
    if limit == some 0 then none
    else (itemValues? (limit.map (· - 1)) shape written).map Json.array
  | .object written =>
    if limit == some 0 then none
    else (memberValues? (limit.map (· - 1)) shape written).map Json.object

/-- The values of the items of an array. -/
def itemValues? (limit : Option Nat) (shape : Shape) : List Written → Option (List Json)
  | [] => some []
  | item :: items => do
    let value ← item.value? limit shape.head
    let values ← itemValues? limit shape.tail items
    some (value :: values)

/-- The members of an object that are read. -/
def memberValues? (limit : Option Nat) (shape : Shape) :
    List (List Piece × Written) → Option (List (String × Json))
  | [] => some []
  | (pieces, member) :: members => do
    let name ← textOfPieces? pieces
    match shape.member? name with
    | some field =>
      let value ← member.value? limit field
      let values ← memberValues? limit shape members
      some ((name, value) :: values)
    | none => memberValues? limit shape members

end

end Lockstep.Json
