import Lockstep.Tree.Expr

/-!
# Statements, modifiers and variables

The statements of a method body, and what they share with other declarations: lists of modifiers and
annotations, and variables with their initial values.
-/

namespace Lockstep.Tree

open Text

/-! ## Modifiers -/

/-- How an annotation gives its arguments. -/
inductive AnnotationForm where
  /-- `@Name` -/
  | marker
  /-- `@Name(value)` -/
  | singleMember
  /-- `@Name(key = value, …)` -/
  | normal
  deriving DecidableEq, Repr

namespace AnnotationForm

def all : List AnnotationForm := [.marker, .singleMember, .normal]

/-- The word for the form in a tree. -/
def key : AnnotationForm → String
  | .marker => "Marker"
  | .singleMember => "SingleMember"
  | .normal => "Normal"

def ofKey? (key : String) : Option AnnotationForm := all.find? (·.key == key)

def kind : AnnotationForm → Kind
  | .marker => .annotationMarker
  | .singleMember => .annotationSingleMember
  | .normal => .annotationNormal

theorem ofKey?_key (form : AnnotationForm) : ofKey? form.key = some form := by cases form <;> rfl

end AnnotationForm

structure Annotation where
  extent : Extent
  form : AnnotationForm
  typeName : Name
  binding : Option TypeBinding
  deriving DecidableEq, Repr

/-- The name of the annotation's type: that of its binding, else the name as written. -/
def Annotation.qualifiedName (a : Annotation) : String :=
  match a.binding with
  | some binding => binding.qualifiedName
  | none => a.typeName.dotted

/-- A keyword or an annotation before a declaration. -/
inductive Modifier where
  | word (extent : Extent) (word : ModifierWord)
  | annotated (mark : Annotation)
  deriving DecidableEq, Repr

namespace Modifier

def extent : Modifier → Extent
  | .word extent _ => extent
  | .annotated mark => mark.extent

def kind : Modifier → Kind
  | .word .. => .modifier
  | .annotated mark => mark.form.kind

/-- The bit of a keyword; none for an annotation. -/
def flag : Modifier → Nat
  | .word _ w => w.flag
  | .annotated _ => 0

/-- The keywords of a modifier list, as bits of one number. -/
def flags (modifiers : List Modifier) : Nat := modifiers.foldl (fun bits m => bits ||| m.flag) 0

/-- Whether a keyword occurs in a modifier list. -/
def mentions (word : ModifierWord) (modifiers : List Modifier) : Bool :=
  modifiers.any fun
    | .word _ other => other == word
    | .annotated _ => false

end Modifier

/-! ## Variables -/

/-- One variable of a declaration, with its initial value. -/
structure Fragment where
  extent : Extent
  name : SimpleName
  extraDimensions : UInt32
  initial : Option Expr

/-! ## Statements -/

/-- Statements that leave a loop or start its next round. -/
inductive JumpWord where
  | «break» | «continue»
  deriving DecidableEq, Repr

def JumpWord.token : JumpWord → String
  | .break => "break"
  | .continue => "continue"

def JumpWord.kind : JumpWord → Kind
  | .break => .breakStatement
  | .continue => .continueStatement

/-- Statements of which only the place is known. -/
inductive StmtForm where
  | forLoop | enhancedFor | switch | tryCatch | synchronized | labeled | assert
  | constructorCall | superConstructorCall | typeDeclaration
  deriving DecidableEq, Repr

def StmtForm.kind : StmtForm → Kind
  | .forLoop => .forStatement
  | .enhancedFor => .enhancedForStatement
  | .switch => .switchStatement
  | .tryCatch => .tryStatement
  | .synchronized => .synchronizedStatement
  | .labeled => .labeledStatement
  | .assert => .assertStatement
  | .constructorCall => .constructorInvocation
  | .superConstructorCall => .superConstructorInvocation
  | .typeDeclaration => .typeDeclarationStatement

inductive Stmt where
  | block (extent : Extent) (statements : List Stmt)
  | expression (extent : Extent) (expr : Expr)
  | declare (extent : Extent) (modifiers : List Modifier) (type : TypeRef)
      (fragments : List Fragment)
  | returns (extent : Extent) (value : Option Expr)
  | ifElse (extent : Extent) (condition : Expr) (positive : Stmt) (negative : Option Stmt)
  | whileLoop (extent : Extent) (condition : Expr) (body : Stmt)
  | doLoop (extent : Extent) (body : Stmt) (condition : Expr)
  | empty (extent : Extent)
  | jump (word : JumpWord) (extent : Extent) (label : Option SimpleName)
  | throws (extent : Extent) (value : Expr)
  | other (form : StmtForm) (extent : Extent)

namespace Stmt

def extent : Stmt → Extent
  | .block extent _ | .expression extent _ | .declare extent .. | .returns extent _
  | .ifElse extent .. | .whileLoop extent .. | .doLoop extent .. | .empty extent
  | .jump _ extent _ | .throws extent _ | .other _ extent => extent

def kind : Stmt → Kind
  | .block .. => .block
  | .expression .. => .expressionStatement
  | .declare .. => .variableDeclarationStatement
  | .returns .. => .returnStatement
  | .ifElse .. => .ifStatement
  | .whileLoop .. => .whileStatement
  | .doLoop .. => .doStatement
  | .empty _ => .emptyStatement
  | .jump word .. => word.kind
  | .throws .. => .throwStatement
  | .other form _ => form.kind

def isBlock : Stmt → Bool
  | .block .. => true
  | _ => false

def isIf : Stmt → Bool
  | .ifElse .. => true
  | _ => false

end Stmt

/-- Statements between braces. -/
structure Block where
  extent : Extent
  statements : List Stmt

/-- A block as a statement. -/
def Block.toStmt (b : Block) : Stmt := .block b.extent b.statements

end Lockstep.Tree
