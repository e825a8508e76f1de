import Lockstep.Json.Record
import Lockstep.Tree.Decl

/-!
# Reading trees from JSON

Each form of tree is a record. Where several forms may stand, the kind of the node comes along.
Nothing is read from a value that has a field too much or too little for its form, a word that is
no operator or keyword, or an offset of more than 32 bits.

What is inside a record with its kind is read by `ofJsonIn? true`, and a tree that stands by itself
by `ofJson?`.
-/

namespace Lockstep

open Json Text Lockstep.Tree

/-- The place of a node, under the name `range` in each record. -/
def Text.Extent.ofJson? (v : Json) : Option Extent := do
  let fields ← v.record? ["pos", "end"]
  let pos ← fields.required? "pos" fun v _ => v.word?
  let stop ← fields.required? "end" fun v _ => v.word?
  some ⟨pos, stop⟩

/-- The place of the node that a record describes. -/
def Json.Fields.extent? {whole : Json} (fields : Fields whole) : Option Extent :=
  fields.required? "range" fun v _ => Extent.ofJson? v

namespace Tree

/-- A node of which only the place is read. -/
def placeOfContent? {whole : Json} (content : Content whole) : Option Extent := do
  let fields ← content.fields? ["range"]
  fields.extent?

/-- A node of which only the place is read. -/
def placeOfJson? (v : Json) : Option Extent := v.content?.bind placeOfContent?

/-! ## Names -/

def MemberBinding.ofJson? (v : Json) : Option MemberBinding := do
  let fields ← v.record? ["isStatic"]
  let isStatic ← fields.getD? "isStatic" false fun v _ => v.bool?
  some ⟨isStatic⟩

def TypeBinding.ofJson? (v : Json) : Option TypeBinding := do
  let fields ← v.record? ["qualifiedName", "isGeneric"]
  let qualifiedName ← fields.required? "qualifiedName" fun v _ => v.string?
  let isGeneric ← fields.getD? "isGeneric" false fun v _ => v.bool?
  some ⟨qualifiedName, isGeneric⟩

def SimpleName.ofContent? {whole : Json} (content : Content whole) : Option SimpleName := do
  let fields ← content.fields? ["range", "identifier"]
  let extent ← fields.extent?
  let identifier ← fields.required? "identifier" fun v _ => v.string?
  some ⟨extent, identifier⟩

def SimpleName.ofJson? (v : Json) : Option SimpleName := v.content?.bind ofContent?

/-- The kinds of name, in order. -/
def Name.kinds : List String := ["SimpleName", "QualifiedName"]

def Name.ofJsonIn? (inside : Bool) (v : Json) : Option Name := do
  let tagged ← v.tagged? inside Name.kinds
  match tagged.kind with
  | "SimpleName" => (SimpleName.ofContent? tagged.content).map .simple
  | "QualifiedName" =>
    let fields ← tagged.content.fields? ["range", "qualifier", "name", "binding"]
    let extent ← fields.extent?
    let qualifier ← fields.required? "qualifier" fun v _ => Name.ofJsonIn? true v
    let name ← fields.required? "name" fun v _ => SimpleName.ofJson? v
    let binding ← fields.optional? "binding" fun v _ => MemberBinding.ofJson? v
    some (.qualified extent qualifier name binding)
  | _ => none
  termination_by sizeOf v

def Name.ofJson? (v : Json) : Option Name := ofJsonIn? false v

/-! ## Types -/

/-- The kinds of type, in order. -/
def TypeRef.kinds : List String :=
  ["PrimitiveType", "SimpleType", "ArrayType", "ParameterizedType", "WildcardType"]

def TypeRef.ofJsonIn? (inside : Bool) (v : Json) : Option TypeRef := do
  let tagged ← v.tagged? inside TypeRef.kinds
  match tagged.kind with
  | "PrimitiveType" =>
    let fields ← tagged.content.fields? ["range", "primitive"]
    let extent ← fields.extent?
    let primitive ← fields.required? "primitive" fun v _ =>
      (v.choice? true).bind Primitive.ofKeyword?
    some (.primitive extent primitive)
  | "SimpleType" =>
    let fields ← tagged.content.fields? ["range", "name", "binding"]
    let extent ← fields.extent?
    let name ← fields.required? "name" fun v _ => Name.ofJsonIn? true v
    let binding ← fields.optional? "binding" fun v _ => TypeBinding.ofJson? v
    some (.named extent name binding)
  | "ArrayType" =>
    let fields ← tagged.content.fields? ["range", "elementType", "dimensions"]
    let extent ← fields.extent?
    let element ← fields.required? "elementType" fun v _ => TypeRef.ofJsonIn? true v
    let dimensions ← fields.required? "dimensions" fun v _ => v.word?
    some (.array extent element dimensions)
  | "ParameterizedType" =>
    let fields ← tagged.content.fields? ["range", "type", "typeArguments"]
    let extent ← fields.extent?
    let base ← fields.required? "type" fun v _ => TypeRef.ofJsonIn? true v
    let arguments ← fields.listD? "typeArguments" fun v _ => TypeRef.ofJsonIn? true v
    some (.parameterized extent base arguments)
  | "WildcardType" => (placeOfContent? tagged.content).map .wildcard
  | _ => none
  termination_by sizeOf v

def TypeRef.ofJson? (v : Json) : Option TypeRef := ofJsonIn? false v

/-! ## Expressions -/

def LiteralKind.ofContent? (kind : LiteralKind) {whole : Json} (content : Content whole) :
    Option Expr := do
  let fields ← content.fields? ["range", "token"]
  let extent ← fields.extent?
  let token ← fields.required? "token" fun v _ => v.string?
  some (.literal kind extent token)

def ExprForm.ofContent? (form : ExprForm) {whole : Json} (content : Content whole) :
    Option Expr :=
  (placeOfContent? content).map (.other form)

/-- The kinds of expression, in order. -/
def Expr.kinds : List String :=
  ["SimpleName", "QualifiedName", "NumberLiteral", "StringLiteral", "CharacterLiteral",
    "BooleanLiteral", "NullLiteral", "ThisExpression", "ParenthesizedExpression",
    "InfixExpression", "PrefixExpression", "PostfixExpression", "Assignment",
    "ConditionalExpression", "MethodInvocation", "SuperMethodInvocation", "FieldAccess",
    "SuperFieldAccess", "ArrayAccess", "ClassInstanceCreation", "CastExpression",
    "InstanceofExpression", "ArrayCreation", "ArrayInitializer", "LambdaExpression",
    "MethodReference", "TypeLiteral"]

def Expr.ofJsonIn? (inside : Bool) (v : Json) : Option Expr := do
  let tagged ← v.tagged? inside Expr.kinds
  match tagged.kind with
  | "SimpleName" | "QualifiedName" => (Name.ofJsonIn? inside v).map .name
  | "NumberLiteral" => LiteralKind.number.ofContent? tagged.content
  | "StringLiteral" => LiteralKind.string.ofContent? tagged.content
  | "CharacterLiteral" => LiteralKind.character.ofContent? tagged.content
  | "BooleanLiteral" =>
    let fields ← tagged.content.fields? ["range", "value"]
    let extent ← fields.extent?
    let value ← fields.required? "value" fun v _ => v.bool?
    some (.boolean extent value)
  | "NullLiteral" => (placeOfContent? tagged.content).map .null
  | "ThisExpression" =>
    let fields ← tagged.content.fields? ["range", "qualifier"]
    let extent ← fields.extent?
    let qualifier ← fields.optional? "qualifier" fun v _ => Name.ofJsonIn? true v
    some (.this extent qualifier)
  | "ParenthesizedExpression" =>
    let fields ← tagged.content.fields? ["range", "expression"]
    let extent ← fields.extent?
    let inner ← fields.required? "expression" fun v _ => Expr.ofJsonIn? true v
    some (.parenthesized extent inner)
  | "InfixExpression" =>
    let fields ← tagged.content.fields? ["range", "left", "operator", "right", "extendedOperands"]
    let extent ← fields.extent?
    let left ← fields.required? "left" fun v _ => Expr.ofJsonIn? true v
    let op ← fields.required? "operator" fun v _ => (v.choice? true).bind BinaryOp.ofToken?
    let right ← fields.required? "right" fun v _ => Expr.ofJsonIn? true v
    let more ← fields.listD? "extendedOperands" fun v _ => Expr.ofJsonIn? true v
    some (.binary extent left op right more)
  | "PrefixExpression" =>
    let fields ← tagged.content.fields? ["range", "operator", "operand"]
    let extent ← fields.extent?
    let op ← fields.required? "operator" fun v _ => (v.choice? true).bind UnaryOp.ofToken?
    let operand ← fields.required? "operand" fun v _ => Expr.ofJsonIn? true v
    some (.unary extent op operand)
  | "PostfixExpression" =>
    let fields ← tagged.content.fields? ["range", "operand", "operator"]
    let extent ← fields.extent?
    let operand ← fields.required? "operand" fun v _ => Expr.ofJsonIn? true v
    let op ← fields.required? "operator" fun v _ => (v.choice? true).bind StepOp.ofToken?
    some (.step extent operand op)
  | "Assignment" =>
    let fields ← tagged.content.fields? ["range", "left", "operator", "right"]
    let extent ← fields.extent?
    let left ← fields.required? "left" fun v _ => Expr.ofJsonIn? true v
    let op ← fields.required? "operator" fun v _ => (v.choice? true).bind AssignOp.ofToken?
    let right ← fields.required? "right" fun v _ => Expr.ofJsonIn? true v
    some (.assign extent left op right)
  | "ConditionalExpression" =>
    let fields ← tagged.content.fields? ["range", "condition", "thenExpression", "elseExpression"]
    let extent ← fields.extent?
    let condition ← fields.required? "condition" fun v _ => Expr.ofJsonIn? true v
    let positive ← fields.required? "thenExpression" fun v _ => Expr.ofJsonIn? true v
    let negative ← fields.required? "elseExpression" fun v _ => Expr.ofJsonIn? true v
    some (.conditional extent condition positive negative)
  | "MethodInvocation" =>
    let fields ← tagged.content.fields?
      ["range", "expression", "typeArguments", "name", "arguments", "binding"]
    let extent ← fields.extent?
    let receiver ← fields.optional? "expression" fun v _ => Expr.ofJsonIn? true v
    let typeArguments ← fields.listD? "typeArguments" fun v _ => TypeRef.ofJsonIn? true v
    let name ← fields.required? "name" fun v _ => SimpleName.ofJson? v
    let arguments ← fields.listD? "arguments" fun v _ => Expr.ofJsonIn? true v
    let binding ← fields.optional? "binding" fun v _ => MemberBinding.ofJson? v
    some (.call extent receiver typeArguments name arguments binding)
  | "SuperMethodInvocation" =>
    let fields ← tagged.content.fields?
      ["range", "qualifier", "typeArguments", "name", "arguments", "binding"]
    let extent ← fields.extent?
    let qualifier ← fields.optional? "qualifier" fun v _ => Name.ofJsonIn? true v
    let typeArguments ← fields.listD? "typeArguments" fun v _ => TypeRef.ofJsonIn? true v
    let name ← fields.required? "name" fun v _ => SimpleName.ofJson? v
    let arguments ← fields.listD? "arguments" fun v _ => Expr.ofJsonIn? true v
    let binding ← fields.optional? "binding" fun v _ => MemberBinding.ofJson? v
    some (.superCall extent qualifier typeArguments name arguments binding)
  | "FieldAccess" =>
    let fields ← tagged.content.fields? ["range", "expression", "name", "binding"]
    let extent ← fields.extent?
    let object ← fields.required? "expression" fun v _ => Expr.ofJsonIn? true v
    let name ← fields.required? "name" fun v _ => SimpleName.ofJson? v
    let binding ← fields.optional? "binding" fun v _ => MemberBinding.ofJson? v
    some (.field extent object name binding)
  | "SuperFieldAccess" =>
    let fields ← tagged.content.fields? ["range", "qualifier", "name", "binding"]
    let extent ← fields.extent?
    let qualifier ← fields.optional? "qualifier" fun v _ => Name.ofJsonIn? true v
    let name ← fields.required? "name" fun v _ => SimpleName.ofJson? v
    let binding ← fields.optional? "binding" fun v _ => MemberBinding.ofJson? v
    some (.superField extent qualifier name binding)
  | "ArrayAccess" =>
    let fields ← tagged.content.fields? ["range", "array", "index"]
    let extent ← fields.extent?
    let array ← fields.required? "array" fun v _ => Expr.ofJsonIn? true v
    let position ← fields.required? "index" fun v _ => Expr.ofJsonIn? true v
    some (.index extent array position)
  | "ClassInstanceCreation" =>
    let fields ← tagged.content.fields?
      ["range", "expression", "typeArguments", "type", "arguments", "anonymousClassDeclaration"]
    let extent ← fields.extent?
    let outer ← fields.optional? "expression" fun v _ => Expr.ofJsonIn? true v
    let typeArguments ← fields.listD? "typeArguments" fun v _ => TypeRef.ofJsonIn? true v
    let type ← fields.required? "type" fun v _ => TypeRef.ofJsonIn? true v
    let arguments ← fields.listD? "arguments" fun v _ => Expr.ofJsonIn? true v
    let body ← fields.optional? "anonymousClassDeclaration" fun v _ => placeOfJson? v
    some (.create extent outer typeArguments type arguments body)
  | "CastExpression" =>
    let fields ← tagged.content.fields? ["range", "type", "expression"]
    let extent ← fields.extent?
    let type ← fields.required? "type" fun v _ => TypeRef.ofJsonIn? true v
    let operand ← fields.required? "expression" fun v _ => Expr.ofJsonIn? true v
    some (.cast extent type operand)
  | "InstanceofExpression" =>
    let fields ← tagged.content.fields? ["range", "left", "rightOperand"]
    let extent ← fields.extent?
    let left ← fields.required? "left" fun v _ => Expr.ofJsonIn? true v
    let type ← fields.required? "rightOperand" fun v _ => TypeRef.ofJsonIn? true v
    some (.instanceOf extent left type)
  | "ArrayCreation" => ExprForm.arrayCreation.ofContent? tagged.content
  | "ArrayInitializer" => ExprForm.arrayInitializer.ofContent? tagged.content
  | "LambdaExpression" => ExprForm.lambda.ofContent? tagged.content
  | "MethodReference" => ExprForm.methodReference.ofContent? tagged.content
  | "TypeLiteral" => ExprForm.typeLiteral.ofContent? tagged.content
  | _ => none
  termination_by sizeOf v

def Expr.ofJson? (v : Json) : Option Expr := ofJsonIn? false v

/-! ## Modifiers and variables -/

/-- The kinds of modifier, in order. -/
def Modifier.kinds : List String := ["Modifier", "Annotation"]

def Modifier.ofJsonIn? (inside : Bool) (v : Json) : Option Modifier := do
  let tagged ← v.tagged? inside Modifier.kinds
  match tagged.kind with
  | "Modifier" =>
    let fields ← tagged.content.fields? ["range", "keyword"]
    let extent ← fields.extent?
    let word ← fields.required? "keyword" fun v _ => (v.choice? true).bind ModifierWord.ofToken?
    some (.word extent word)
  | "Annotation" =>
    let fields ← tagged.content.fields? ["range", "annotationKind", "typeName", "binding"]
    let extent ← fields.extent?
    let form ← fields.required? "annotationKind" fun v _ =>
      (v.choice? true).bind AnnotationForm.ofKey?
    let typeName ← fields.required? "typeName" fun v _ => Name.ofJsonIn? true v
    let binding ← fields.optional? "binding" fun v _ => TypeBinding.ofJson? v
    some (.annotated ⟨extent, form, typeName, binding⟩)
  | _ => none

def Modifier.ofJson? (v : Json) : Option Modifier := ofJsonIn? false v

def Fragment.ofJsonIn? (inside : Bool) (v : Json) : Option Fragment := do
  let fields ← v.record? ["range", "name", "extraDimensions", "initializer"]
  let extent ← fields.extent?
  let name ← fields.required? "name" fun v _ => SimpleName.ofJson? v
  let extraDimensions ← fields.getD? "extraDimensions" 0 fun v _ => v.word?
  let initial ← fields.optional? "initializer" fun v _ => Expr.ofJsonIn? inside v
  some ⟨extent, name, extraDimensions, initial⟩

def Fragment.ofJson? (v : Json) : Option Fragment := ofJsonIn? false v

/-! ## Statements -/

def JumpWord.ofContent? (word : JumpWord) {whole : Json} (content : Content whole) :
    Option Stmt := do
  let fields ← content.fields? ["range", "label"]
  let extent ← fields.extent?
  let label ← fields.optional? "label" fun v _ => SimpleName.ofJson? v
  some (.jump word extent label)

def StmtForm.ofContent? (form : StmtForm) {whole : Json} (content : Content whole) :
    Option Stmt :=
  (placeOfContent? content).map (.other form)

/-- The kinds of statement, in order. -/
def Stmt.kinds : List String :=
  ["Block", "ExpressionStatement", "VariableDeclarationStatement", "ReturnStatement",
    "IfStatement", "WhileStatement", "DoStatement", "EmptyStatement", "BreakStatement",
    "ContinueStatement", "ThrowStatement", "ForStatement", "EnhancedForStatement",
    "SwitchStatement", "TryStatement", "SynchronizedStatement", "LabeledStatement",
    "AssertStatement", "ConstructorInvocation", "SuperConstructorInvocation",
    "TypeDeclarationStatement"]

def Stmt.ofJsonIn? (inside : Bool) (v : Json) : Option Stmt := do
  let tagged ← v.tagged? inside Stmt.kinds
  match tagged.kind with
  | "Block" =>
    let fields ← tagged.content.fields? ["range", "statements"]
    let extent ← fields.extent?
    let statements ← fields.listD? "statements" fun v _ => Stmt.ofJsonIn? true v
    some (.block extent statements)
  | "ExpressionStatement" =>
    let fields ← tagged.content.fields? ["range", "expression"]
    let extent ← fields.extent?
    let expr ← fields.required? "expression" fun v _ => Expr.ofJsonIn? true v
    some (.expression extent expr)
  | "VariableDeclarationStatement" =>
    let fields ← tagged.content.fields? ["range", "modifiers", "type", "fragments"]
    let extent ← fields.extent?
    let modifiers ← fields.listD? "modifiers" fun v _ => Modifier.ofJsonIn? true v
    let type ← fields.required? "type" fun v _ => TypeRef.ofJsonIn? true v
    let fragments ← fields.list? "fragments" fun v _ => Fragment.ofJsonIn? true v
    some (.declare extent modifiers type fragments)
  | "ReturnStatement" =>
    let fields ← tagged.content.fields? ["range", "expression"]
    let extent ← fields.extent?
    let value ← fields.optional? "expression" fun v _ => Expr.ofJsonIn? true v
    some (.returns extent value)
  | "IfStatement" =>
    let fields ← tagged.content.fields? ["range", "expression", "thenStatement", "elseStatement"]
    let extent ← fields.extent?
    let condition ← fields.required? "expression" fun v _ => Expr.ofJsonIn? true v
    let positive ← fields.required? "thenStatement" fun v _ => Stmt.ofJsonIn? true v
    let negative ← fields.optional? "elseStatement" fun v _ => Stmt.ofJsonIn? true v
    some (.ifElse extent condition positive negative)
  | "WhileStatement" =>
    let fields ← tagged.content.fields? ["range", "expression", "body"]
    let extent ← fields.extent?
    let condition ← fields.required? "expression" fun v _ => Expr.ofJsonIn? true v
    let body ← fields.required? "body" fun v _ => Stmt.ofJsonIn? true v
    some (.whileLoop extent condition body)
  | "DoStatement" =>
    let fields ← tagged.content.fields? ["range", "body", "expression"]
    let extent ← fields.extent?
    let body ← fields.required? "body" fun v _ => Stmt.ofJsonIn? true v
    let condition ← fields.required? "expression" fun v _ => Expr.ofJsonIn? true v
    some (.doLoop extent body condition)
  | "EmptyStatement" => (placeOfContent? tagged.content).map .empty
  | "BreakStatement" => JumpWord.break.ofContent? tagged.content
  | "ContinueStatement" => JumpWord.continue.ofContent? tagged.content
  | "ThrowStatement" =>
    let fields ← tagged.content.fields? ["range", "expression"]
    let extent ← fields.extent?
    let value ← fields.required? "expression" fun v _ => Expr.ofJsonIn? true v
    some (.throws extent value)
  | "ForStatement" => StmtForm.forLoop.ofContent? tagged.content
  | "EnhancedForStatement" => StmtForm.enhancedFor.ofContent? tagged.content
  | "SwitchStatement" => StmtForm.switch.ofContent? tagged.content
  | "TryStatement" => StmtForm.tryCatch.ofContent? tagged.content
  | "SynchronizedStatement" => StmtForm.synchronized.ofContent? tagged.content
  | "LabeledStatement" => StmtForm.labeled.ofContent? tagged.content
  | "AssertStatement" => StmtForm.assert.ofContent? tagged.content
  | "ConstructorInvocation" => StmtForm.constructorCall.ofContent? tagged.content
  | "SuperConstructorInvocation" => StmtForm.superConstructorCall.ofContent? tagged.content
  | "TypeDeclarationStatement" => StmtForm.typeDeclaration.ofContent? tagged.content
  | _ => none
  termination_by sizeOf v

def Stmt.ofJson? (v : Json) : Option Stmt := ofJsonIn? false v

def Block.ofJsonIn? (inside : Bool) (v : Json) : Option Block := do
  let fields ← v.record? ["range", "statements"]
  let extent ← fields.extent?
  let statements ← fields.listD? "statements" fun v _ => Stmt.ofJsonIn? inside v
  some ⟨extent, statements⟩

def Block.ofJson? (v : Json) : Option Block := ofJsonIn? false v

/-! ## Declarations -/

def Parameter.ofJsonIn? (inside : Bool) (v : Json) : Option Parameter := do
  let fields ← v.record? ["range", "modifiers", "type", "isVarargs", "name", "extraDimensions"]
  let extent ← fields.extent?
  let modifiers ← fields.listD? "modifiers" fun v _ => Modifier.ofJsonIn? inside v
  let type ← fields.required? "type" fun v _ => TypeRef.ofJsonIn? inside v
  let isVarargs ← fields.getD? "isVarargs" false fun v _ => v.bool?
  let name ← fields.required? "name" fun v _ => SimpleName.ofJson? v
  let extraDimensions ← fields.getD? "extraDimensions" 0 fun v _ => v.word?
  some ⟨extent, modifiers, type, isVarargs, name, extraDimensions⟩

def Parameter.ofJson? (v : Json) : Option Parameter := ofJsonIn? false v

def FieldDecl.ofContent? {whole : Json} (content : Content whole) : Option FieldDecl := do
  let fields ← content.fields? ["range", "modifiers", "type", "fragments"]
  let extent ← fields.extent?
  let modifiers ← fields.listD? "modifiers" fun v _ => Modifier.ofJsonIn? true v
  let type ← fields.required? "type" fun v _ => TypeRef.ofJsonIn? true v
  let fragments ← fields.list? "fragments" fun v _ => Fragment.ofJsonIn? true v
  some ⟨extent, modifiers, type, fragments⟩

def MethodDecl.ofContent? {whole : Json} (content : Content whole) : Option MethodDecl := do
  let fields ← content.fields?
    ["range", "modifiers", "typeParameters", "returnType", "isConstructor", "name", "parameters",
      "extraDimensions", "thrownExceptions", "body"]
  let extent ← fields.extent?
  let modifiers ← fields.listD? "modifiers" fun v _ => Modifier.ofJsonIn? true v
  let typeParameters ← fields.listD? "typeParameters" fun v _ => placeOfJson? v
  let returnType ← fields.optional? "returnType" fun v _ => TypeRef.ofJsonIn? true v
  let isConstructor ← fields.getD? "isConstructor" false fun v _ => v.bool?
  let name ← fields.required? "name" fun v _ => SimpleName.ofJson? v
  let parameters ← fields.listD? "parameters" fun v _ => Parameter.ofJsonIn? true v
  let extraDimensions ← fields.getD? "extraDimensions" 0 fun v _ => v.word?
  let thrown ← fields.listD? "thrownExceptions" fun v _ => TypeRef.ofJsonIn? true v
  let body ← fields.optional? "body" fun v _ => Block.ofJsonIn? true v
  some ⟨extent, modifiers, typeParameters, returnType, isConstructor, name, parameters,
    extraDimensions, thrown, body⟩

/-- The names of the fields of a type declaration. -/
def TypeDecl.fieldNames : List String :=
  ["range", "declarationKind", "modifiers", "name", "typeParameters", "superclassType",
    "superInterfaceTypes", "bodyDeclarations"]

/-- All of a type declaration but its members. -/
def TypeHeader.ofFields? (inside : Bool) {whole : Json} (fields : Fields whole) :
    Option TypeHeader := do
  let extent ← fields.extent?
  let form ← fields.required? "declarationKind" fun v _ => (v.choice? inside).bind TypeForm.ofKey?
  let modifiers ← fields.listD? "modifiers" fun v _ => Modifier.ofJsonIn? inside v
  let name ← fields.required? "name" fun v _ => SimpleName.ofJson? v
  let typeParameters ← fields.listD? "typeParameters" fun v _ => placeOfJson? v
  let superclass ← fields.optional? "superclassType" fun v _ => TypeRef.ofJsonIn? inside v
  let interfaces ← fields.listD? "superInterfaceTypes" fun v _ => TypeRef.ofJsonIn? inside v
  some ⟨extent, form, modifiers, name, typeParameters, superclass, interfaces⟩

/-- The kinds of member, in order. -/
def Member.kinds : List String :=
  ["FieldDeclaration", "MethodDeclaration", "TypeDeclaration", "Initializer"]

def Member.ofJsonIn? (inside : Bool) (v : Json) : Option Member := do
  let tagged ← v.tagged? inside Member.kinds
  match tagged.kind with
  | "FieldDeclaration" => (FieldDecl.ofContent? tagged.content).map .field
  | "MethodDeclaration" => (MethodDecl.ofContent? tagged.content).map .method
  | "TypeDeclaration" =>
    let fields ← tagged.content.fields? TypeDecl.fieldNames
    let header ← TypeHeader.ofFields? true fields
    let members ← fields.listD? "bodyDeclarations" fun v _ => Member.ofJsonIn? true v
    some (.type header members)
  | "Initializer" => (placeOfContent? tagged.content).map .setup
  | _ => none
  termination_by sizeOf v

def Member.ofJson? (v : Json) : Option Member := ofJsonIn? false v

def TypeDecl.ofJson? (v : Json) : Option TypeDecl := do
  let fields ← v.record? fieldNames
  let header ← TypeHeader.ofFields? false fields
  let members ← fields.listD? "bodyDeclarations" fun v _ => Member.ofJson? v
  some ⟨header, members⟩

def PackageDecl.ofJson? (v : Json) : Option PackageDecl := do
  let fields ← v.record? ["range", "name"]
  let extent ← fields.extent?
  let name ← fields.required? "name" fun v _ => Name.ofJson? v
  some ⟨extent, name⟩

def ImportDecl.ofJson? (v : Json) : Option ImportDecl := do
  let fields ← v.record? ["range", "name", "isStatic", "isOnDemand", "binding"]
  let extent ← fields.extent?
  let name ← fields.required? "name" fun v _ => Name.ofJson? v
  let isStatic ← fields.getD? "isStatic" false fun v _ => v.bool?
  let isOnDemand ← fields.getD? "isOnDemand" false fun v _ => v.bool?
  let binding ← fields.optional? "binding" fun v _ => TypeBinding.ofJson? v
  some ⟨extent, name, isStatic, isOnDemand, binding⟩

def CompilationUnit.ofJson? (v : Json) : Option CompilationUnit := do
  let fields ← v.record? ["range", "package", "imports", "types"]
  let extent ← fields.extent?
  let package ← fields.optional? "package" fun v _ => PackageDecl.ofJson? v
  let imports ← fields.listD? "imports" fun v _ => ImportDecl.ofJson? v
  let types ← fields.listD? "types" fun v _ => TypeDecl.ofJson? v
  some ⟨extent, package, imports, types⟩

end Tree

end Lockstep
