/-!
# JSON values

A value keeps what was written: the members of an object stay in order, also if a name is repeated,
and a number that is not a plain natural number stays as it is spelled.
-/

namespace Lockstep

inductive Json where
  | null
  | bool (value : Bool)
  | nat (value : Nat)
  /-- A number with a sign, a fraction or an exponent. -/
  | number (spelling : String)
  | string (value : String)
  | array (items : List Json)
  | object (members : List (String × Json))
  deriving Inhabited, Repr

namespace Json

def isNull : Json → Bool
  | .null => true
  | _ => false

/-- The members of an object; none of any other value. -/
def members : Json → List (String × Json)
  | .object members => members
  | _ => []

/-- The first member of that name. -/
def member? (v : Json) (name : String) : Option Json := v.members.lookup name

end Json

end Lockstep
