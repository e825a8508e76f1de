/-!
# Kinds of syntax nodes

The closed set of node kinds. Messages name a node by its kind, and a target lists the kinds that it
has no form for.
-/

namespace Lockstep.Tree

/-- The kind of a syntax node. -/
inductive Kind where
  | compilationUnit | packageDeclaration | importDeclaration | typeDeclaration | enumDeclaration
  | annotationTypeDeclaration | fieldDeclaration | methodDeclaration | initializer
  | singleVariableDeclaration | variableDeclarationFragment | modifier | annotationMarker
  | annotationSingleMember | annotationNormal | typeParameter | anonymousClassDeclaration
  | primitiveType | simpleType | arrayType | parameterizedType | wildcardType
  | simpleName | qualifiedName | numberLiteral | stringLiteral | characterLiteral
  | booleanLiteral | nullLiteral
  | thisExpression | parenthesizedExpression | infixExpression | prefixExpression
  | postfixExpression | assignment | conditionalExpression | methodInvocation
  | superMethodInvocation | fieldAccess | superFieldAccess | arrayAccess | classInstanceCreation
  | castExpression | instanceofExpression | arrayCreation | arrayInitializer | lambdaExpression
  | methodReference | typeLiteral
  | block | expressionStatement | variableDeclarationStatement | returnStatement | ifStatement
  | whileStatement | doStatement | emptyStatement | breakStatement | continueStatement
  | throwStatement | forStatement | enhancedForStatement | switchStatement | tryStatement
  | synchronizedStatement | labeledStatement | assertStatement | constructorInvocation
  | superConstructorInvocation | typeDeclarationStatement
  deriving DecidableEq, Repr

namespace Kind

def all : List Kind :=
  [.compilationUnit, .packageDeclaration, .importDeclaration, .typeDeclaration, .enumDeclaration,
    .annotationTypeDeclaration, .fieldDeclaration, .methodDeclaration, .initializer,
    .singleVariableDeclaration, .variableDeclarationFragment, .modifier, .annotationMarker,
    .annotationSingleMember, .annotationNormal, .typeParameter, .anonymousClassDeclaration,
    .primitiveType, .simpleType, .arrayType, .parameterizedType, .wildcardType, .simpleName,
    .qualifiedName, .numberLiteral, .stringLiteral, .characterLiteral, .booleanLiteral,
    .nullLiteral, .thisExpression, .parenthesizedExpression, .infixExpression, .prefixExpression,
    .postfixExpression, .assignment, .conditionalExpression, .methodInvocation,
    .superMethodInvocation, .fieldAccess, .superFieldAccess, .arrayAccess,
    .classInstanceCreation, .castExpression, .instanceofExpression, .arrayCreation,
    .arrayInitializer, .lambdaExpression, .methodReference, .typeLiteral, .block,
    .expressionStatement, .variableDeclarationStatement, .returnStatement, .ifStatement,
    .whileStatement, .doStatement, .emptyStatement, .breakStatement, .continueStatement,
    .throwStatement, .forStatement, .enhancedForStatement, .switchStatement, .tryStatement,
    .synchronizedStatement, .labeledStatement, .assertStatement, .constructorInvocation,
    .superConstructorInvocation, .typeDeclarationStatement]

/-- The name of the kind in trees and messages. -/
def name : Kind → String
  | .compilationUnit => "CompilationUnit"
  | .packageDeclaration => "PackageDeclaration"
  | .importDeclaration => "ImportDeclaration"
  | .typeDeclaration => "TypeDeclaration"
  | .enumDeclaration => "EnumDeclaration"
  | .annotationTypeDeclaration => "AnnotationTypeDeclaration"
  | .fieldDeclaration => "FieldDeclaration"
  | .methodDeclaration => "MethodDeclaration"
  | .initializer => "Initializer"
  | .singleVariableDeclaration => "SingleVariableDeclaration"
  | .variableDeclarationFragment => "VariableDeclarationFragment"
  | .modifier => "Modifier"
  | .annotationMarker => "MarkerAnnotation"
  | .annotationSingleMember => "SingleMemberAnnotation"
  | .annotationNormal => "NormalAnnotation"
  | .typeParameter => "TypeParameter"
  | .anonymousClassDeclaration => "AnonymousClassDeclaration"
  | .primitiveType => "PrimitiveType"
  | .simpleType => "SimpleType"
  | .arrayType => "ArrayType"
  | .parameterizedType => "ParameterizedType"
  | .wildcardType => "WildcardType"
  | .simpleName => "SimpleName"
  | .qualifiedName => "QualifiedName"
  | .numberLiteral => "NumberLiteral"
  | .stringLiteral => "StringLiteral"
  | .characterLiteral => "CharacterLiteral"
  | .booleanLiteral => "BooleanLiteral"
  | .nullLiteral => "NullLiteral"
  | .thisExpression => "ThisExpression"
  | .parenthesizedExpression => "ParenthesizedExpression"
  | .infixExpression => "InfixExpression"
  | .prefixExpression => "PrefixExpression"
  | .postfixExpression => "PostfixExpression"
  | .assignment => "Assignment"
  | .conditionalExpression => "ConditionalExpression"
  | .methodInvocation => "MethodInvocation"
  | .superMethodInvocation => "SuperMethodInvocation"
  | .fieldAccess => "FieldAccess"
  | .superFieldAccess => "SuperFieldAccess"
  | .arrayAccess => "ArrayAccess"
  | .classInstanceCreation => "ClassInstanceCreation"
  | .castExpression => "CastExpression"
  | .instanceofExpression => "InstanceofExpression"
  | .arrayCreation => "ArrayCreation"
  | .arrayInitializer => "ArrayInitializer"
  | .lambdaExpression => "LambdaExpression"
  | .methodReference => "MethodReference"
  | .typeLiteral => "TypeLiteral"
  | .block => "Block"
  | .expressionStatement => "ExpressionStatement"
  | .variableDeclarationStatement => "VariableDeclarationStatement"
  | .returnStatement => "ReturnStatement"
  | .ifStatement => "IfStatement"
  | .whileStatement => "WhileStatement"
  | .doStatement => "DoStatement"
  | .emptyStatement => "EmptyStatement"
  | .breakStatement => "BreakStatement"
  | .continueStatement => "ContinueStatement"
  | .throwStatement => "ThrowStatement"
  | .forStatement => "ForStatement"
  | .enhancedForStatement => "EnhancedForStatement"
  | .switchStatement => "SwitchStatement"
  | .tryStatement => "TryStatement"
  | .synchronizedStatement => "SynchronizedStatement"
  | .labeledStatement => "LabeledStatement"
  | .assertStatement => "AssertStatement"
  | .constructorInvocation => "ConstructorInvocation"
  | .superConstructorInvocation => "SuperConstructorInvocation"
  | .typeDeclarationStatement => "TypeDeclarationStatement"

def ofName? (name : String) : Option Kind := all.find? (·.name == name)

def isStatement : Kind → Bool
  | .block | .expressionStatement | .variableDeclarationStatement | .returnStatement
  | .ifStatement | .whileStatement | .doStatement | .emptyStatement | .breakStatement
  | .continueStatement | .throwStatement | .forStatement | .enhancedForStatement
  | .switchStatement | .tryStatement | .synchronizedStatement | .labeledStatement
  | .assertStatement | .constructorInvocation | .superConstructorInvocation
  | .typeDeclarationStatement => true
  | _ => false

def isDeclaration : Kind → Bool
  | .compilationUnit | .packageDeclaration | .importDeclaration | .typeDeclaration
  | .enumDeclaration | .annotationTypeDeclaration | .fieldDeclaration | .methodDeclaration
  | .initializer => true
  | _ => false

theorem mem_all (k : Kind) : k ∈ all := by cases k <;> decide

theorem ofName?_name (k : Kind) : ofName? k.name = some k := by
  have hall : ∀ k ∈ all, ofName? k.name = some k := by decide +kernel
  exact hall k k.mem_all

end Kind

end Lockstep.Tree
