import Lockstep.Json.Value
import Lockstep.Tree.Decl

/-!
# Writing trees as JSON

Every field of a node is written, except those that are optional and empty. Where several forms may
stand, the kind of the node comes first.
-/

namespace Lockstep

open Text Lockstep.Tree

/-- The place of a node, under the name `range` in each record. -/
def Text.Extent.toJson (e : Extent) : Json :=
  .object [("pos", .nat e.pos.toNat), ("end", .nat e.stop.toNat)]

namespace Tree

/-- A record of known form at a place. -/
def record (extent : Extent) (fields : List (String × Json)) : Json :=
  .object (("range", extent.toJson) :: fields)

/-- A record that tells its kind. -/
def taggedRecord (kind : String) (extent : Extent) (fields : List (String × Json)) : Json :=
  .object (("kind", .string kind) :: ("range", extent.toJson) :: fields)

variable {α : Type}

/-- A field that is left out if it is empty. -/
def optionalField (name : String) (write : α → Json) : Option α → List (String × Json)
  | some x => [(name, write x)]
  | none => []

/-- A field that holds a list. -/
def listField (name : String) (write : α → Json) (xs : List α) : String × Json :=
  (name, .array (xs.map write))

/-! ## Names -/

def MemberBinding.toJson (b : MemberBinding) : Json := .object [("isStatic", .bool b.isStatic)]

def TypeBinding.toJson (b : TypeBinding) : Json :=
  .object [("qualifiedName", .string b.qualifiedName), ("isGeneric", .bool b.isGeneric)]

def SimpleName.toJson (n : SimpleName) : Json :=
  record n.extent [("identifier", .string n.identifier)]

def Name.toJson : Name → Json
  | .simple n => taggedRecord "SimpleName" n.extent [("identifier", .string n.identifier)]
  | .qualified extent qualifier n binding =>
    taggedRecord "QualifiedName" extent
      ([("qualifier", qualifier.toJson), ("name", n.toJson)] ++
        optionalField "binding" MemberBinding.toJson binding)

/-! ## Types -/

mutual

def TypeRef.toJson : TypeRef → Json
  | .primitive extent p => taggedRecord "PrimitiveType" extent [("primitive", .string p.keyword)]
  | .named extent n binding =>
    taggedRecord "SimpleType" extent
      (("name", n.toJson) :: optionalField "binding" TypeBinding.toJson binding)
  | .array extent element dimensions =>
    taggedRecord "ArrayType" extent
      [("elementType", element.toJson), ("dimensions", .nat dimensions.toNat)]
  | .parameterized extent base arguments =>
    taggedRecord "ParameterizedType" extent
      [("type", base.toJson), ("typeArguments", .array (TypeRef.toJsons arguments))]
  | .wildcard extent => taggedRecord "WildcardType" extent []

def TypeRef.toJsons : List TypeRef → List Json
  | [] => []
  | t :: ts => t.toJson :: TypeRef.toJsons ts

end

/-- A list of types as a field. -/
def typesField (name : String) (types : List TypeRef) : String × Json :=
  (name, .array (TypeRef.toJsons types))

/-! ## Expressions -/

mutual

def Expr.toJson : Expr → Json
  | .name n => n.toJson
  | .literal kind extent token =>
    taggedRecord kind.kind.name extent [("token", .string token)]
  | .boolean extent value => taggedRecord "BooleanLiteral" extent [("value", .bool value)]
  | .null extent => taggedRecord "NullLiteral" extent []
  | .this extent qualifier =>
    taggedRecord "ThisExpression" extent (optionalField "qualifier" Name.toJson qualifier)
  | .parenthesized extent inner =>
    taggedRecord "ParenthesizedExpression" extent [("expression", inner.toJson)]
  | .binary extent left op right more =>
    taggedRecord "InfixExpression" extent
      [("left", left.toJson), ("operator", .string op.token), ("right", right.toJson),
        ("extendedOperands", .array (Expr.toJsons more))]
  | .unary extent op operand =>
    taggedRecord "PrefixExpression" extent
      [("operator", .string op.token), ("operand", operand.toJson)]
  | .step extent operand op =>
    taggedRecord "PostfixExpression" extent
      [("operand", operand.toJson), ("operator", .string op.token)]
  | .assign extent left op right =>
    taggedRecord "Assignment" extent
      [("left", left.toJson), ("operator", .string op.token), ("right", right.toJson)]
  | .conditional extent condition positive negative =>
    taggedRecord "ConditionalExpression" extent
      [("condition", condition.toJson), ("thenExpression", positive.toJson),
        ("elseExpression", negative.toJson)]
  | .call extent receiver typeArguments n arguments binding =>
    taggedRecord "MethodInvocation" extent
      (Expr.toField "expression" receiver ++
        [typesField "typeArguments" typeArguments, ("name", n.toJson),
          ("arguments", .array (Expr.toJsons arguments))] ++
        optionalField "binding" MemberBinding.toJson binding)
  | .superCall extent qualifier typeArguments n arguments binding =>
    taggedRecord "SuperMethodInvocation" extent
      (optionalField "qualifier" Name.toJson qualifier ++
        [typesField "typeArguments" typeArguments, ("name", n.toJson),
          ("arguments", .array (Expr.toJsons arguments))] ++
        optionalField "binding" MemberBinding.toJson binding)
  | .field extent object n binding =>
    taggedRecord "FieldAccess" extent
      ([("expression", object.toJson), ("name", n.toJson)] ++
        optionalField "binding" MemberBinding.toJson binding)
  | .superField extent qualifier n binding =>
    taggedRecord "SuperFieldAccess" extent
      (optionalField "qualifier" Name.toJson qualifier ++ [("name", n.toJson)] ++
        optionalField "binding" MemberBinding.toJson binding)
  | .index extent array position =>
    taggedRecord "ArrayAccess" extent [("array", array.toJson), ("index", position.toJson)]
  | .create extent outer typeArguments type arguments body =>
    taggedRecord "ClassInstanceCreation" extent
      (Expr.toField "expression" outer ++
        [typesField "typeArguments" typeArguments, ("type", type.toJson),
          ("arguments", .array (Expr.toJsons arguments))] ++
        optionalField "anonymousClassDeclaration" (record · []) body)
  | .cast extent type operand =>
    taggedRecord "CastExpression" extent
      [("type", type.toJson), ("expression", operand.toJson)]
  | .instanceOf extent left type =>
    taggedRecord "InstanceofExpression" extent
      [("left", left.toJson), ("rightOperand", type.toJson)]
  | .other form extent => taggedRecord form.kind.name extent []

def Expr.toJsons : List Expr → List Json
  | [] => []
  | e :: es => e.toJson :: Expr.toJsons es

def Expr.toField (name : String) : Option Expr → List (String × Json)
  | none => []
  | some e => [(name, e.toJson)]

end

/-! ## Modifiers and variables -/

def Modifier.toJson : Modifier → Json
  | .word extent w => taggedRecord "Modifier" extent [("keyword", .string w.token)]
  | .annotated mark =>
    taggedRecord "Annotation" mark.extent
      ([("annotationKind", .string mark.form.key), ("typeName", mark.typeName.toJson)] ++
        optionalField "binding" TypeBinding.toJson mark.binding)

def Fragment.toJson (f : Fragment) : Json :=
  record f.extent
    ([("name", f.name.toJson), ("extraDimensions", .nat f.extraDimensions.toNat)] ++
      optionalField "initializer" Expr.toJson f.initial)

/-! ## Statements -/

mutual

def Stmt.toJson : Stmt → Json
  | .block extent statements =>
    taggedRecord "Block" extent [("statements", .array (Stmt.toJsons statements))]
  | .expression extent expr =>
    taggedRecord "ExpressionStatement" extent [("expression", expr.toJson)]
  | .declare extent modifiers type fragments =>
    taggedRecord "VariableDeclarationStatement" extent
      [listField "modifiers" Modifier.toJson modifiers, ("type", type.toJson),
        listField "fragments" Fragment.toJson fragments]
  | .returns extent value =>
    taggedRecord "ReturnStatement" extent (optionalField "expression" Expr.toJson value)
  | .ifElse extent condition positive negative =>
    taggedRecord "IfStatement" extent
      ([("expression", condition.toJson), ("thenStatement", positive.toJson)] ++
        Stmt.toField "elseStatement" negative)
  | .whileLoop extent condition body =>
    taggedRecord "WhileStatement" extent
      [("expression", condition.toJson), ("body", body.toJson)]
  | .doLoop extent body condition =>
    taggedRecord "DoStatement" extent [("body", body.toJson), ("expression", condition.toJson)]
  | .empty extent => taggedRecord "EmptyStatement" extent []
  | .jump word extent label =>
    taggedRecord word.kind.name extent (optionalField "label" SimpleName.toJson label)
  | .throws extent value =>
    taggedRecord "ThrowStatement" extent [("expression", value.toJson)]
  | .other form extent => taggedRecord form.kind.name extent []

def Stmt.toJsons : List Stmt → List Json
  | [] => []
  | s :: ss => s.toJson :: Stmt.toJsons ss

def Stmt.toField (name : String) : Option Stmt → List (String × Json)
  | none => []
  | some s => [(name, s.toJson)]

end

def Block.toJson (b : Block) : Json :=
  record b.extent [("statements", .array (Stmt.toJsons b.statements))]

/-! ## Declarations -/

def Parameter.toJson (p : Parameter) : Json :=
  record p.extent
    [listField "modifiers" Modifier.toJson p.modifiers, ("type", p.type.toJson),
      ("isVarargs", .bool p.isVarargs), ("name", p.name.toJson),
      ("extraDimensions", .nat p.extraDimensions.toNat)]

def FieldDecl.toJson (f : FieldDecl) : Json :=
  taggedRecord "FieldDeclaration" f.extent
    [listField "modifiers" Modifier.toJson f.modifiers, ("type", f.type.toJson),
      listField "fragments" Fragment.toJson f.fragments]

def MethodDecl.toJson (m : MethodDecl) : Json :=
  taggedRecord "MethodDeclaration" m.extent
    ([listField "modifiers" Modifier.toJson m.modifiers,
        listField "typeParameters" (record · []) m.typeParameters] ++
      optionalField "returnType" TypeRef.toJson m.returnType ++
      [("isConstructor", .bool m.isConstructor), ("name", m.name.toJson),
        listField "parameters" Parameter.toJson m.parameters,
        ("extraDimensions", .nat m.extraDimensions.toNat),
        typesField "thrownExceptions" m.thrown] ++
      optionalField "body" Block.toJson m.body)

/-- The fields of a type declaration but its place and its members. -/
def TypeHeader.toFields (h : TypeHeader) : List (String × Json) :=
  [("declarationKind", .string h.form.key), listField "modifiers" Modifier.toJson h.modifiers,
    ("name", h.name.toJson), listField "typeParameters" (record · []) h.typeParameters] ++
  optionalField "superclassType" TypeRef.toJson h.superclass ++
  [typesField "superInterfaceTypes" h.interfaces]

mutual

def Member.toJson : Member → Json
  | .field decl => decl.toJson
  | .method decl => decl.toJson
  | .type header members =>
    taggedRecord "TypeDeclaration" header.extent
      (header.toFields ++ [("bodyDeclarations", .array (Member.toJsons members))])
  | .setup extent => taggedRecord "Initializer" extent []

def Member.toJsons : List Member → List Json
  | [] => []
  | m :: ms => m.toJson :: Member.toJsons ms

end

def TypeDecl.toJson (t : TypeDecl) : Json :=
  record t.header.extent
    (t.header.toFields ++ [("bodyDeclarations", .array (Member.toJsons t.members))])

def PackageDecl.toJson (p : PackageDecl) : Json := record p.extent [("name", p.name.toJson)]

def ImportDecl.toJson (i : ImportDecl) : Json :=
  record i.extent
    ([("name", i.name.toJson), ("isStatic", .bool i.isStatic),
        ("isOnDemand", .bool i.isOnDemand)] ++
      optionalField "binding" TypeBinding.toJson i.binding)

def CompilationUnit.toJson (u : CompilationUnit) : Json :=
  record u.extent
    (optionalField "package" PackageDecl.toJson u.package ++
      [listField "imports" ImportDecl.toJson u.imports, listField "types" TypeDecl.toJson u.types])

end Tree

end Lockstep
