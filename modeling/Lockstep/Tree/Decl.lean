import Lockstep.Tree.Stmt

/-!
# Declarations

Fields, methods and types, which may hold further types, and the compilation unit with its package
and its imports.
-/

namespace Lockstep.Tree

open Text

structure Parameter where
  extent : Extent
  modifiers : List Modifier
  type : TypeRef
  isVarargs : Bool
  name : SimpleName
  extraDimensions : UInt32

structure FieldDecl where
  extent : Extent
  modifiers : List Modifier
  type : TypeRef
  fragments : List Fragment

structure MethodDecl where
  extent : Extent
  modifiers : List Modifier
  typeParameters : List Extent
  /-- Absent for constructors. -/
  returnType : Option TypeRef
  isConstructor : Bool
  name : SimpleName
  parameters : List Parameter
  extraDimensions : UInt32
  thrown : List TypeRef
  /-- Absent for methods without an implementation. -/
  body : Option Block

/-- What a type declaration declares. -/
inductive TypeForm where
  | «class» | interface | enum | annotationType
  deriving DecidableEq, Repr

namespace TypeForm

def all : List TypeForm := [.class, .interface, .enum, .annotationType]

/-- The word for the form in a tree. -/
def key : TypeForm → String
  | .class => "class"
  | .interface => "interface"
  | .enum => "enum"
  | .annotationType => "annotationType"

def ofKey? (key : String) : Option TypeForm := all.find? (·.key == key)

def kind : TypeForm → Kind
  | .class | .interface => .typeDeclaration
  | .enum => .enumDeclaration
  | .annotationType => .annotationTypeDeclaration

theorem ofKey?_key (form : TypeForm) : ofKey? form.key = some form := by cases form <;> rfl

end TypeForm

/-- A type declaration up to its body. -/
structure TypeHeader where
  extent : Extent
  form : TypeForm
  modifiers : List Modifier
  name : SimpleName
  typeParameters : List Extent
  superclass : Option TypeRef
  interfaces : List TypeRef

/-- A member of a type. -/
inductive Member where
  | field (decl : FieldDecl)
  | method (decl : MethodDecl)
  | type (header : TypeHeader) (members : List Member)
  /-- A block that runs when an object or a class is set up; only its place is known. -/
  | setup (extent : Extent)

structure TypeDecl where
  header : TypeHeader
  members : List Member

/-- A type declaration as a member of another. -/
def TypeDecl.toMember (decl : TypeDecl) : Member := .type decl.header decl.members

def TypeHeader.isInterface (header : TypeHeader) : Bool := header.form == .interface

namespace Member

def extent : Member → Extent
  | .field decl => decl.extent
  | .method decl => decl.extent
  | .type h _ => h.extent
  | .setup extent => extent

def kind : Member → Kind
  | .field _ => .fieldDeclaration
  | .method _ => .methodDeclaration
  | .type h _ => h.form.kind
  | .setup _ => .initializer

end Member

/-! ## Compilation units -/

structure PackageDecl where
  extent : Extent
  name : Name
  deriving DecidableEq, Repr

structure ImportDecl where
  extent : Extent
  name : Name
  isStatic : Bool
  isOnDemand : Bool
  /-- The imported type, if a single type is imported. -/
  binding : Option TypeBinding
  deriving DecidableEq, Repr

/-- Whether a single generic type is imported. -/
def ImportDecl.isGeneric (decl : ImportDecl) : Bool :=
  !decl.isOnDemand && decl.binding.any (·.isGeneric)

structure CompilationUnit where
  extent : Extent
  package : Option PackageDecl
  imports : List ImportDecl
  types : List TypeDecl

end Lockstep.Tree
