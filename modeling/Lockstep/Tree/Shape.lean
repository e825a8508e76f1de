import Lockstep.Json.Written
import Lockstep.Tree.Decl

/-!
# What is read of the text of a tree

Down to the types of a unit, the text of a tree is read field by field. Whatever comes with its kind
is read as a whole, because the kind may stand behind the fields.
-/

namespace Lockstep

open Json

/-- The fields of a place. -/
def Text.Extent.shape : Shape := .record [("pos", .whole), ("end", .whole)]

namespace Tree

open Text

/-- The fields of a node of which only the place is read. -/
def placeShape : Shape := .record [("range", Extent.shape)]

def SimpleName.shape : Shape := .record [("range", Extent.shape), ("identifier", .whole)]

def TypeBinding.shape : Shape := .record [("qualifiedName", .whole), ("isGeneric", .whole)]

def TypeDecl.shape : Shape :=
  .record [("range", Extent.shape), ("declarationKind", .whole), ("modifiers", .whole),
    ("name", SimpleName.shape), ("typeParameters", .list placeShape), ("superclassType", .whole),
    ("superInterfaceTypes", .whole), ("bodyDeclarations", .whole)]

def PackageDecl.shape : Shape := .record [("range", Extent.shape), ("name", .whole)]

def ImportDecl.shape : Shape :=
  .record [("range", Extent.shape), ("name", .whole), ("isStatic", .whole),
    ("isOnDemand", .whole), ("binding", TypeBinding.shape)]

def CompilationUnit.shape : Shape :=
  .record [("range", Extent.shape), ("package", PackageDecl.shape),
    ("imports", .list ImportDecl.shape), ("types", .list TypeDecl.shape)]

end Tree

end Lockstep
