import Lockstep.Text.Extent
import Lockstep.Text.Identifier

/-!
# Names

A name is an identifier, or an identifier after a qualifier and a full stop. What a name stands for
is not worked out here: the tree carries it along as a binding, if the front end found one.
-/

namespace Lockstep.Tree

open Text

/-- What a field or a method turned out to be. -/
structure MemberBinding where
  isStatic : Bool
  deriving DecidableEq, Repr

/-- What a type turned out to be. -/
structure TypeBinding where
  qualifiedName : String
  isGeneric : Bool
  deriving DecidableEq, Repr

/-- The package of a qualified name: what stands before the last full stop. -/
def packageOf? (qualifiedName : String) : Option String :=
  match (splitAtChar '.' qualifiedName.toList).dropLast with
  | [] => none
  | parts => some (".".intercalate (parts.map String.ofList))

/-- An identifier in its place. -/
structure SimpleName where
  extent : Extent
  identifier : String
  deriving DecidableEq, Repr

/-- A name with its qualifiers. -/
inductive Name where
  | simple (name : SimpleName)
  | qualified (extent : Extent) (qualifier : Name) (name : SimpleName)
      (binding : Option MemberBinding)
  deriving DecidableEq, Repr

namespace Name

def extent : Name → Extent
  | .simple name => name.extent
  | .qualified extent .. => extent

/-- The identifiers with full stops between them. -/
def dotted : Name → String
  | .simple name => name.identifier
  | .qualified _ qualifier name _ => qualifier.dotted ++ "." ++ name.identifier

/-- The identifier after the last full stop. -/
def last : Name → SimpleName
  | .simple name => name
  | .qualified _ _ name _ => name

def isQualified : Name → Bool
  | .simple _ => false
  | .qualified .. => true

end Name

end Lockstep.Tree
