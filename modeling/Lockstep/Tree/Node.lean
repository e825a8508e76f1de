import Lockstep.Tree.Decl

/-!
# Nodes of any kind

A node is a syntax tree of one of the forms that stand on their own. Every node has a place and a
kind.
-/

namespace Lockstep.Tree

open Text

inductive Node where
  | unit (unit : CompilationUnit)
  | package (decl : PackageDecl)
  | imported (decl : ImportDecl)
  | member (member : Member)
  | parameter (parameter : Parameter)
  | fragment (fragment : Fragment)
  | modifier (modifier : Modifier)
  | type (type : TypeRef)
  | name (name : Name)
  | expr (expr : Expr)
  | stmt (stmt : Stmt)

namespace Node

def extent : Node → Extent
  | .unit x => x.extent
  | .package x => x.extent
  | .imported x => x.extent
  | .member x => x.extent
  | .parameter x => x.extent
  | .fragment x => x.extent
  | .modifier x => x.extent
  | .type x => x.extent
  | .name x => x.extent
  | .expr x => x.extent
  | .stmt x => x.extent

def kind : Node → Kind
  | .unit _ => .compilationUnit
  | .package _ => .packageDeclaration
  | .imported _ => .importDeclaration
  | .member x => x.kind
  | .parameter _ => .singleVariableDeclaration
  | .fragment _ => .variableDeclarationFragment
  | .modifier x => x.kind
  | .type x => x.kind
  | .name x => x.kind
  | .expr x => x.kind
  | .stmt x => x.kind

end Node

end Lockstep.Tree
