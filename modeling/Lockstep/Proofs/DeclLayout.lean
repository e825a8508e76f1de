import Lockstep.Proofs.NodeLayout
import Lockstep.Render.Decl

/-!
# The layouts of declarations

Parameters, packages and imports lie in a source like the nodes of a method body. Fields, methods
and types may have comments before their first token counted into their places, so for them it is
said directly what it is to lie in a source.

- `Covers`: the place of a declaration, from the comments before it to its end.
- `Member.Lies`, `Member.LieAfter`: members of a type lie between two places of a source.
- `ImportsLie`: imports lie one after another, with a gap after each.
-/

namespace Lockstep

open Source Text

namespace Tree

/-! ## Parameters, fields and methods -/

/-- The dots of a parameter that takes any number of arguments. -/
def dotLayouts (isVarargs : Bool) : List Layout := if isVarargs then [.token "..."] else []

def Parameter.layout (p : Parameter) : Layout :=
  .node p.extent (p.modifiers.map Modifier.layout ++ p.type.layout ::
    (dotLayouts p.isVarargs ++ p.name.layout :: bracketLayouts p.extraDimensions.toNat))

def FieldDecl.layouts (f : FieldDecl) : List Layout :=
  f.modifiers.map Modifier.layout ++ f.type.layout ::
    (Layout.separated (f.fragments.map Fragment.layout) ++ [.token ";"])

/-- Type parameters in angle brackets; of each only the place is known. -/
def typeParameterLayouts (parameters : List Extent) : List Layout :=
  if parameters.isEmpty then []
  else .token "<" :: Layout.separated (parameters.map .unknown) ++ [.token ">"]

/-- Types after a keyword, if there are any. -/
def clauseLayouts (word : String) (types : List TypeRef) : List Layout :=
  if types.isEmpty then [] else .token word :: Layout.separated (types.map TypeRef.layout)

def MethodDecl.bodyLayout (m : MethodDecl) : Layout :=
  match m.body with
  | some body => body.toStmt.layout
  | none => .token ";"

def MethodDecl.layouts (m : MethodDecl) : List Layout :=
  m.modifiers.map Modifier.layout ++ typeParameterLayouts m.typeParameters ++
    m.returnType.toList.map TypeRef.layout ++ [m.name.layout] ++
    argumentLayouts (m.parameters.map Parameter.layout) ++
    bracketLayouts m.extraDimensions.toNat ++ clauseLayouts "throws" m.thrown ++ [m.bodyLayout]

/-! ## Types -/

/-- The keyword that declares a type. -/
def TypeForm.layouts : TypeForm → List Layout
  | .class => [.token "class"]
  | .interface => [.token "interface"]
  | .enum => [.token "enum"]
  | .annotationType => [.token "@", .token "interface"]

/-- A type declaration up to its members. -/
def TypeHeader.layouts (h : TypeHeader) : List Layout :=
  h.modifiers.map Modifier.layout ++ h.form.layouts ++ [h.name.layout] ++
    typeParameterLayouts h.typeParameters ++ clauseLayouts "extends" h.superclass.toList ++
    clauseLayouts (if h.isInterface then "extends" else "implements") h.interfaces ++
    [.token "\x7b"]

/-- A place at which a declaration may begin: that of its first token, or that of a comment. -/
def Begins (c : Cursor) : Prop :=
  Trivia.next c.ahead = .absent ∨ ∃ n, Trivia.next c.ahead = .run .blockComment n

/-- The place of a declaration is from `c` to `d`, and its first token is at `first`. What comes
before that are comments that are counted in. -/
structure Covers (extent : Extent) (c first d : Cursor) : Prop where
  start : c.offset = extent.start
  stop : d.offset = extent.stop.toNat
  begins : Begins c
  token : Trivia.next first.ahead = .absent
  lead : ∃ text, c.Passes text first ∧ Trivia.Runs text first.ahead

mutual

/-- The tokens of a member fill the source between two places. Of a block that sets up a class, and
of an enumeration, only the place is known. -/
def Member.Fills : Member → Cursor → Cursor → Prop
  | .field f, first, d => Layout.LieAll f.layouts first d
  | .method m, first, d => Layout.LieAll m.layouts first d
  | .type h members, first, d =>
    if h.form.isPlain then
      ∃ body stop, Layout.LieAll h.layouts first body ∧ Member.LieAfter members body stop ∧
        Layout.LieAfter [.token "\x7d"] stop d
    else ∃ text, first.Passes text d
  | .setup _, first, d => ∃ text, first.Passes text d

/-- The members lie one after another, with whole runs of trivia before each. -/
def Member.LieAfter : List Member → Cursor → Cursor → Prop
  | [], c, d => d = c
  | m :: rest, c, e =>
    ∃ gap start first d, c.Passes gap start ∧ Trivia.Runs gap start.ahead ∧
      Covers m.extent start first d ∧ m.Fills first d ∧ Member.LieAfter rest d e

end

mutual

theorem Member.Fills.passes {c d : Cursor} : {m : Member} → m.Fills c d → ∃ text, c.Passes text d
  | .field _, h => Layout.LieAll.passes h
  | .method _, h => Layout.LieAll.passes h
  | .setup _, h => h
  | .type header members, h => by
    rw [Member.Fills] at h
    split at h
    · obtain ⟨body, stop, hheader, hmembers, hclose⟩ := h
      obtain ⟨_, hpass⟩ := hheader.passes
      obtain ⟨_, hpass'⟩ := Member.LieAfter.passes hmembers
      obtain ⟨_, hpass''⟩ := hclose.passes
      exact ⟨_, hpass.trans (hpass'.trans hpass'')⟩
    · exact h

theorem Member.LieAfter.passes {c e : Cursor} :
    {members : List Member} → Member.LieAfter members c e → ∃ text, c.Passes text e
  | [], h => ⟨[], by rw [Member.LieAfter] at h; exact h ▸ .refl c⟩
  | m :: rest, h => by
    obtain ⟨gap, start, first, d, hgap, -, hcovers, hfills, hrest⟩ := h
    obtain ⟨_, hlead, -⟩ := hcovers.lead
    obtain ⟨_, hpass⟩ := Member.Fills.passes hfills
    obtain ⟨_, hpass'⟩ := Member.LieAfter.passes hrest
    exact ⟨_, hgap.trans (hlead.trans (hpass.trans hpass'))⟩

end

/-- The member lies between two places of a source. -/
def Member.Lies (m : Member) (c d : Cursor) : Prop :=
  ∃ first, Covers m.extent c first d ∧ m.Fills first d

theorem Member.Lies.begins {m : Member} {c d : Cursor} (h : m.Lies c d) : Begins c := by
  obtain ⟨_, hcovers, -⟩ := h
  exact hcovers.begins

theorem Member.Lies.offset_eq {m : Member} {c d : Cursor} (h : m.Lies c d) :
    c.offset = m.extent.start := by
  obtain ⟨_, hcovers, -⟩ := h
  exact hcovers.start

/-! ## The head of a file -/

def PackageDecl.layout (p : PackageDecl) : Layout :=
  .node p.extent [.token "package", p.name.layout, .token ";"]

def ImportDecl.layout (i : ImportDecl) : Layout :=
  .node i.extent (.token "import" :: ((if i.isStatic then [.token "static"] else []) ++
    i.name.layout :: ((if i.isOnDemand then [.token ".", .token "*"] else []) ++ [.token ";"])))

/-- The imports lie one after another between two places, with a gap after each. -/
inductive ImportsLie : List ImportDecl → List (List Char) → Cursor → Cursor → Prop where
  | nil : ImportsLie [] [] c c
  | cons : i.layout.Lies c stop → stop.Passes gap start → Trivia.Runs gap start.ahead →
      ImportsLie imports gaps start d → ImportsLie (i :: imports) (gap :: gaps) c d

theorem ImportsLie.passes {imports : List ImportDecl} {gaps : List (List Char)} {c d : Cursor}
    (h : ImportsLie imports gaps c d) : ∃ text, c.Passes text d := by
  induction h with
  | nil => exact ⟨[], .refl _⟩
  | cons hi hgap _ _ ih =>
    obtain ⟨_, hpass⟩ := hi.passes
    obtain ⟨_, hrest⟩ := ih
    exact ⟨_, hpass.trans (hgap.trans hrest)⟩

theorem ImportsLie.absent_or_eq {imports : List ImportDecl} {gaps : List (List Char)}
    {c d : Cursor} (h : ImportsLie imports gaps c d) :
    Trivia.next c.ahead = .absent ∨ c = d := by
  cases h with
  | nil => exact .inr rfl
  | cons hi => exact .inl hi.absent

end Tree

end Lockstep
