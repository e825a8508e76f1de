import Lockstep.Json.Value

/-!
# Records in JSON

A record is written as an object with a member for each field, or as an array of its fields in
order. Members that are no fields are ignored; a field that comes twice is refused. Where a value
may be one of several records, its kind comes along as a member, or as the first item of the array.

Inside a record with its kind, words are read more freely: a kind may be given by its place among
the kinds of record that may stand there, and the word of an enumeration may have an empty object
beside it.

Whatever is read out of a value is smaller than the value, so that readers of trees terminate.

- `Json.record?`: the fields of a record.
- `Json.tagged?`: the kind of a record, and what its fields are read from.
- `Fields.required?`, `Fields.optional?`, `Fields.getD?`: what a field holds.
-/

namespace Lockstep.Json

/-- A value that is smaller than `whole`. -/
abbrev Inner (whole : Json) := { v : Json // sizeOf v < sizeOf whole }

variable {whole : Json} {α : Type}

theorem sizeOf_item_lt {items : List Json} {v : Json} (h : v ∈ items) :
    sizeOf v < sizeOf (Json.array items) := by
  have := List.sizeOf_lt_of_mem h
  simp only [array.sizeOf_spec]
  omega

theorem sizeOf_member_lt {members : List (String × Json)} {m : String × Json} (h : m ∈ members) :
    sizeOf m.2 < sizeOf (Json.object members) := by
  have := List.sizeOf_lt_of_mem h
  have : sizeOf m.2 < sizeOf m := by
    cases m
    simp only [Prod.mk.sizeOf_spec]
    omega
  simp only [object.sizeOf_spec]
  omega

/-- The items of an array. -/
def items? : (v : Json) → Option (List (Inner v))
  | .array items => some (items.attach.map fun ⟨v, h⟩ => ⟨v, sizeOf_item_lt h⟩)
  | _ => none

/-- What the fields of a record are read from. -/
inductive Content (whole : Json) where
  | named (members : List (String × Inner whole))
  | listed (items : List (Inner whole))

/-- The members or the items of a value. -/
def content? : (v : Json) → Option (Content v)
  | .object members =>
    some (.named (members.attach.map fun ⟨m, h⟩ => (m.1, ⟨m.2, sizeOf_member_lt h⟩)))
  | .array items => some (.listed (items.attach.map fun ⟨v, h⟩ => ⟨v, sizeOf_item_lt h⟩))
  | _ => none

/-- Whether a name comes more than once. -/
def repeats (members : List (String × Inner whole)) (name : String) : Bool :=
  1 < (members.filter (·.1 == name)).length

/-- The values of a record by the names of its fields. -/
structure Fields (whole : Json) where
  values : List (String × Inner whole)

/-- The fields of a record, given their names in order. -/
def Content.fields? (names : List String) : Content whole → Option (Fields whole)
  | .named members => if names.any (repeats members) then none else some ⟨members⟩
  | .listed items => if names.length < items.length then none else some ⟨names.zip items⟩

/-- The fields of a record, given their names in order. -/
def record? (names : List String) (v : Json) : Option (Fields v) :=
  v.content?.bind (·.fields? names)

/-- The kind of a record, and what its fields are read from. -/
structure Tagged (whole : Json) where
  kind : String
  content : Content whole

/-- The kind that a value names, out of `kinds` if it is named by its place. -/
def kind? (inside : Bool) (kinds : List String) : Json → Option String
  | .string kind => some kind
  | .nat place => if inside then kinds[place]? else none
  | _ => none

/-- The kind of a record with its fields: the member `kind`, or the first of its items. -/
def tagged? (inside : Bool) (kinds : List String) (v : Json) : Option (Tagged v) :=
  match v.content? with
  | some (.named members) =>
    match members.lookup "kind" with
    | some ⟨kind, _⟩ =>
      if repeats members "kind" then none
      else (kind? inside kinds kind).map fun kind => ⟨kind, .named members⟩
    | none => none
  | some (.listed (⟨kind, _⟩ :: items)) =>
    (kind? inside kinds kind).map fun kind => ⟨kind, .listed items⟩
  | _ => none

/-! ## Fields

Each field is read by a function on values that are smaller than the record. -/

/-- Read each item of an array. -/
def readItems? (v : Json) (read : (item : Json) → sizeOf item < sizeOf v → Option α) :
    Option (List α) :=
  v.items?.bind (·.mapM fun ⟨item, h⟩ => read item h)

namespace Fields

/-- A field that has to be there. -/
def required? (fields : Fields whole) (name : String)
    (read : (v : Json) → sizeOf v < sizeOf whole → Option α) : Option α :=
  match fields.values.lookup name with
  | some ⟨v, h⟩ => read v h
  | none => none

/-- A field that may be missing or null. -/
def optional? (fields : Fields whole) (name : String)
    (read : (v : Json) → sizeOf v < sizeOf whole → Option α) : Option (Option α) :=
  match fields.values.lookup name with
  | some ⟨v, h⟩ => if v.isNull then some none else (read v h).map some
  | none => some none

/-- A field that may be missing, with its value in that case. -/
def getD? (fields : Fields whole) (name : String) (missing : α)
    (read : (v : Json) → sizeOf v < sizeOf whole → Option α) : Option α :=
  match fields.values.lookup name with
  | some ⟨v, h⟩ => read v h
  | none => some missing

/-- A field that holds a list. -/
def list? (fields : Fields whole) (name : String)
    (read : (v : Json) → sizeOf v < sizeOf whole → Option α) : Option (List α) :=
  fields.required? name fun v h => v.readItems? fun item h' => read item (Nat.lt_trans h' h)

/-- A field that holds a list, which is empty if the field is missing. -/
def listD? (fields : Fields whole) (name : String)
    (read : (v : Json) → sizeOf v < sizeOf whole → Option α) : Option (List α) :=
  fields.getD? name [] fun v h => v.readItems? fun item h' => read item (Nat.lt_trans h' h)

end Fields

/-! ## Plain values -/

def string? : Json → Option String
  | .string value => some value
  | _ => none

def bool? : Json → Option Bool
  | .bool value => some value
  | _ => none

/-- A natural number below 2³². -/
def word? : Json → Option UInt32
  | .nat value => if value < 4294967296 then some (.ofNat value) else none
  | _ => none

/-- A word of an enumeration: the word itself, or an object that holds nothing but null under that
name, or an empty object if it is inside a record with its kind. -/
def choice? (inside : Bool) : Json → Option String
  | .string word => some word
  | .object [(word, .null)] => some word
  | .object [(word, .object [])] => if inside then some word else none
  | _ => none

end Lockstep.Json
