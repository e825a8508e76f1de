import Lockstep.Source.Cursor
import Lockstep.Text.Quoted
import Lockstep.Tree.Node

/-!
# Assembling trees by hand

Trees can be put together beside their source, from the leaves up and in the order of the source. An
assembly keeps a place in the source; each leaf is found after that place, and each node that ends
with a token of its own finds that token after its last child.

- `token`, `word`: finding a text, and finding an identifier.
- one function for each form of tree.
-/

namespace Lockstep.Tree

open Source Text

namespace Assembler

/-- Why a step of an assembly fails. -/
inductive Fault where
  /-- The token does not occur after the offset. -/
  | tokenMissing (token : String) (offset : Nat) (source : String)
  /-- The word does not occur by itself after the offset. -/
  | wordMissing (word : String) (offset : Nat) (source : String)
  | notPrimitive (word : String)
  | tooFewOperands
  deriving DecidableEq, Repr

def Fault.message : Fault → String
  | .tokenMissing token offset source =>
    "token `" ++ token ++ "` not found after offset " ++ toString offset ++ " in " ++
      quoted source
  | .wordMissing word offset source =>
    "word `" ++ word ++ "` not found after offset " ++ toString offset ++ " in " ++
      quoted source
  | .notPrimitive word => "`" ++ word ++ "` is not a primitive type"
  | .tooFewOperands => "an infix expression needs two operands"

/-- A step of an assembly. -/
abbrev Assemble := EStateM Fault Cursor

/-! ## Finding tokens -/

/-- How many characters come before the first occurrence of a pattern. -/
def find? (pattern : List Char) : List Char → Option Nat
  | [] => if pattern.isEmpty then some 0 else none
  | c :: rest =>
    if pattern.isPrefixOf (c :: rest) then some 0 else (find? pattern rest).map (· + 1)

/-- Whether an identifier may not go on with the character, if there is one. -/
def isBoundary : Option Char → Bool
  | none => true
  | some c => !isIdentifierPart c

/-- What one try of the search for a word comes to. -/
inductive Try where
  /-- The word stands by itself there. -/
  | found (start : Cursor)
  /-- The word does not occur any more. -/
  | missing
  /-- The word occurs as part of a longer identifier, and the search goes on after it. -/
  | rejected (stop : Cursor)

/-- Try the first occurrence of a word. -/
def tryWord (pattern : List Char) (c : Cursor) : Try :=
  match find? pattern c.ahead with
  | none => .missing
  | some n =>
    let start := c.pass n
    let stop := start.pass pattern.length
    if isBoundary start.passed.head? && isBoundary stop.ahead.head? then .found start
    else .rejected stop

/-- The place of the first occurrence of a word that is not part of a longer identifier; those that
are part of one are passed as a whole. A search that gets no further, as that for the empty word
inside an identifier, finds nothing. -/
def findWord? (pattern : List Char) (c : Cursor) : Option Cursor :=
  match tryWord pattern c with
  | .found start => some start
  | .missing => none
  | .rejected stop =>
    if _h : stop.ahead.length < c.ahead.length then findWord? pattern stop else none
  termination_by c.ahead.length

/-- Go to a place and over a pattern that begins there. -/
def take (start : Cursor) (pattern : List Char) : Assemble Extent := fun _ =>
  let stop := start.pass pattern.length
  .ok (.ofNat start.offset stop.offset) stop

/-- Find a token. -/
def token (text : String) : Assemble Extent := do
  let c ← get
  match find? text.toList c.ahead with
  | some n => take (c.pass n) text.toList
  | none => throw (.tokenMissing text c.offset (String.ofList c.text))

/-- Find a word that is not part of a longer identifier. -/
def word (text : String) : Assemble Extent := do
  let c ← get
  match findWord? text.toList c with
  | some start => take start text.toList
  | none => throw (.wordMissing text c.offset (String.ofList c.text))

/-- From the start of one node to the end of another. -/
def spanning (first last : Extent) : Extent := ⟨first.pos, last.stop⟩

/-- From the start of a node to the end of a token that is found now. -/
def closing (first : Extent) (text : String) : Assemble Extent :=
  return spanning first (← token text)

/-! ## Names -/

def simpleName (identifier : String) : Assemble SimpleName :=
  return ⟨← word identifier, identifier⟩

/-- Add identifiers to a name. -/
def qualify (qualifier : Name) : List String → Assemble Name
  | [] => return qualifier
  | identifier :: rest => do
    let n ← simpleName identifier
    qualify (.qualified (spanning qualifier.extent n.extent) qualifier n none) rest

/-- A name by its identifiers with full stops between them. -/
def name (dotted : String) : Assemble Name := do
  match (splitAtChar '.' dotted.toList).map String.ofList with
  | [] => return .simple (← simpleName "")
  | first :: rest => qualify (.simple (← simpleName first)) rest

/-- A name that denotes a field. -/
def fieldName (dotted : String) (binding : MemberBinding) : Assemble Expr := do
  match ← name dotted with
  | .simple n => return .name (.simple n)
  | .qualified extent qualifier n _ => return .name (.qualified extent qualifier n (some binding))

/-! ## Expressions -/

def literal (kind : LiteralKind) (text : String) : Assemble Expr :=
  return .literal kind (← token text) text

def boolean (value : Bool) : Assemble Expr :=
  return .boolean (← word (if value then "true" else "false")) value

def null : Assemble Expr := return .null (← word "null")

def this : Assemble Expr := return .this (← word "this") none

def parenthesized (opening : Extent) (inner : Expr) : Assemble Expr :=
  return .parenthesized (← closing opening ")") inner

/-- A chain of operands with one operator between them. -/
def chain (op : BinaryOp) : List Expr → Assemble Expr
  | left :: right :: more =>
    return .binary (spanning left.extent ((more.getLast?).getD right).extent) left op right more
  | _ => throw .tooFewOperands

def unary (opening : Extent) (op : UnaryOp) (operand : Expr) : Expr :=
  .unary (spanning opening operand.extent) op operand

def step (operand : Expr) (op : StepOp) : Assemble Expr :=
  return .step (← closing operand.extent op.token) operand op

def assign (left : Expr) (op : AssignOp) (right : Expr) : Expr :=
  .assign (spanning left.extent right.extent) left op right

def conditional (condition positive negative : Expr) : Expr :=
  .conditional (spanning condition.extent negative.extent) condition positive negative

def call (receiver : Option Expr) (n : SimpleName) (arguments : List Expr)
    (binding : Option MemberBinding) : Assemble Expr :=
  return .call (← closing ((receiver.map Expr.extent).getD n.extent) ")") receiver [] n arguments
    binding

def superCall (keyword : Extent) (n : SimpleName) (arguments : List Expr)
    (binding : Option MemberBinding) : Assemble Expr :=
  return .superCall (← closing keyword ")") none [] n arguments binding

def field (object : Expr) (n : SimpleName) (binding : Option MemberBinding) : Expr :=
  .field (spanning object.extent n.extent) object n binding

def superField (keyword : Extent) (n : SimpleName) (binding : Option MemberBinding) : Expr :=
  .superField (spanning keyword n.extent) none n binding

def index (array position : Expr) : Assemble Expr :=
  return .index (← closing array.extent "]") array position

def create (keyword : Extent) (type : TypeRef) (arguments : List Expr) : Assemble Expr :=
  return .create (← closing keyword ")") none [] type arguments none

def cast (opening : Extent) (type : TypeRef) (operand : Expr) : Expr :=
  .cast (spanning opening operand.extent) type operand

def instanceOf (left : Expr) (type : TypeRef) : Expr :=
  .instanceOf (spanning left.extent type.extent) left type

/-- From the next occurrence of one token to the next of another. -/
def between (first last : String) : Assemble Extent := do
  let opening ← token first
  closing opening last

/-! ## Types -/

def primitiveType (keyword : String) : Assemble TypeRef := do
  match Primitive.ofKeyword? keyword with
  | some p => return .primitive (← word keyword) p
  | none => throw (.notPrimitive keyword)

def namedType (dotted : String) (binding : Option TypeBinding) : Assemble TypeRef := do
  let n ← name dotted
  return .named n.extent n binding

/-- The end of the last of so many closing brackets. -/
def closeBrackets (extent : Extent) : Nat → Assemble Extent
  | 0 => return extent
  | n + 1 => do
    let extent ← closing extent "]"
    closeBrackets extent n

def arrayType (element : TypeRef) (dimensions : UInt32) : Assemble TypeRef :=
  return .array (← closeBrackets element.extent dimensions.toNat) element dimensions

/-! ## Statements -/

def expressionStatement (expr : Expr) : Assemble Stmt :=
  return .expression (← closing expr.extent ";") expr

def block (opening : Extent) (statements : List Stmt) : Assemble Block :=
  return ⟨← closing opening "\x7d", statements⟩

def returns (keyword : Extent) (value : Option Expr) : Assemble Stmt :=
  return .returns (← closing keyword ";") value

def ifElse (keyword : Extent) (condition : Expr) (positive : Stmt) (negative : Option Stmt) :
    Stmt :=
  .ifElse (spanning keyword ((negative.getD positive).extent)) condition positive negative

def whileLoop (keyword : Extent) (condition : Expr) (body : Stmt) : Stmt :=
  .whileLoop (spanning keyword body.extent) condition body

def doLoop (keyword : Extent) (body : Stmt) (condition : Expr) : Assemble Stmt :=
  return .doLoop (← closing keyword ";") body condition

def emptyStatement : Assemble Stmt := return .empty (← token ";")

def jump (w : JumpWord) (label : Option String) : Assemble Stmt := do
  let keyword ← word w.token
  let label ← label.mapM simpleName
  return .jump w (← closing keyword ";") label

def throws (keyword : Extent) (value : Expr) : Assemble Stmt :=
  return .throws (← closing keyword ";") value

def fragment (n : SimpleName) (initial : Option Expr) : Fragment :=
  ⟨spanning n.extent ((initial.map Expr.extent).getD n.extent), n, 0, initial⟩

/-- The extent of the first modifier, or else of what follows the modifiers. -/
def firstOf (modifiers : List Modifier) (extent : Extent) : Extent :=
  ((modifiers.head?).map Modifier.extent).getD extent

def declare (modifiers : List Modifier) (type : TypeRef) (fragments : List Fragment) :
    Assemble Stmt :=
  return .declare (← closing (firstOf modifiers type.extent) ";") modifiers type fragments

/-! ## Declarations -/

def modifier (w : ModifierWord) : Assemble Modifier := return .word (← word w.token) w

def marker (dotted : String) (binding : Option TypeBinding) : Assemble Modifier := do
  let sign ← token "@"
  let n ← name dotted
  return .annotated ⟨spanning sign n.extent, .marker, n, binding⟩

def parameter (modifiers : List Modifier) (type : TypeRef) (isVarargs : Bool) (n : SimpleName) :
    Parameter :=
  ⟨spanning (firstOf modifiers type.extent) n.extent, modifiers, type, isVarargs, n, 0⟩

def fieldDecl (modifiers : List Modifier) (type : TypeRef) (fragments : List Fragment) :
    Assemble Member :=
  return .field ⟨← closing (firstOf modifiers type.extent) ";", modifiers, type, fragments⟩

/-- A method, which ends with its body or at a semicolon. -/
def methodDecl (modifiers : List Modifier) (returnType : Option TypeRef) (n : SimpleName)
    (parameters : List Parameter) (thrown : List TypeRef) (body : Option Block) :
    Assemble Member := do
  let first := firstOf modifiers ((returnType.map TypeRef.extent).getD n.extent)
  let extent ← match body with
    | some b => pure (spanning first b.extent)
    | none => closing first ";"
  return .method ⟨extent, modifiers, [], returnType, returnType.isNone, n, parameters, 0, thrown,
    body⟩

def typeDecl (modifiers : List Modifier) (keyword : Extent) (form : TypeForm) (n : SimpleName)
    (superclass : Option TypeRef) (interfaces : List TypeRef) (members : List Member) :
    Assemble TypeDecl :=
  return ⟨⟨← closing (firstOf modifiers keyword) "\x7d", form, modifiers, n, [], superclass,
    interfaces⟩, members⟩

def packageDecl (keyword : Extent) (n : Name) : Assemble PackageDecl :=
  return ⟨← closing keyword ";", n⟩

def importDecl (keyword : Extent) (n : Name) (isStatic isOnDemand : Bool)
    (binding : Option TypeBinding) : Assemble ImportDecl :=
  return ⟨← closing keyword ";", n, isStatic, isOnDemand, binding⟩

/-- The import of a single type, from the next keyword on. -/
def singleImport (dotted : String) (binding : Option TypeBinding) : Assemble ImportDecl := do
  let keyword ← word "import"
  let n ← name dotted
  importDecl keyword n false false binding

/-- A unit that takes up the whole source. -/
def compilationUnit (package : Option PackageDecl) (imports : List ImportDecl)
    (types : List TypeDecl) : Assemble CompilationUnit :=
  return ⟨.ofNat 0 (← get).length, package, imports, types⟩

end Assembler

end Lockstep.Tree
