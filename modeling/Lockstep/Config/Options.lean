import Lockstep.Config.OrderedMap
import Lockstep.Json.Reader
import Lockstep.Json.Record
import Lockstep.Target.Basic

/-!
# Options

What a configuration file may set. Every option may be left unset, so that options can be put on top
of each other: the upper layer wins, maps are merged and lists of imports appended.

- `Options.merge`: one layer on top of another.
- `Options.ofText?`: the options of a configuration file.
-/

namespace Lockstep.Config

open Json

structure Options where
  target : Option Target
  /-- The width of a block that the source has no counterpart of. -/
  indentWidth : Option Nat
  /-- What to write for an annotation type; nothing to drop it. -/
  marks : Option (OrderedMap (Option String))
  /-- Imports of every output. -/
  extraImports : Option (List String)
  /-- Namespaces for packages that generic types are imported from. -/
  genericNamespaces : Option (OrderedMap String)
  /-- Namespaces that have to be imported where a type is used. -/
  implicitImports : Option (OrderedMap String)
  outDir : Option String
  files : Option (List String)

namespace Options

/-- No option set. -/
def empty : Options := ⟨none, none, none, none, none, none, none, none⟩

instance : Inhabited Options := ⟨empty⟩

/-- The map below with the entries of the map on top, if there is one. -/
def mergeMap {α : Type} (base top : Option (OrderedMap α)) : Option (OrderedMap α) :=
  match top with
  | none => base
  | some top => some ((base.getD ∅).extend top)

/-- The list below followed by the list on top, if there is one. -/
def mergeList {α : Type} (base top : Option (List α)) : Option (List α) :=
  match top with
  | none => base
  | some top => some (base.getD [] ++ top)

/-- The options with others on top of them. -/
def merge (base top : Options) : Options where
  target := top.target <|> base.target
  indentWidth := top.indentWidth <|> base.indentWidth
  marks := mergeMap base.marks top.marks
  extraImports := mergeList base.extraImports top.extraImports
  genericNamespaces := mergeMap base.genericNamespaces top.genericNamespaces
  implicitImports := mergeMap base.implicitImports top.implicitImports
  outDir := top.outDir <|> base.outDir
  files := top.files <|> base.files

/-! ## Reading options -/

/-- A map as the members of an object; the last of several members of one name counts. -/
def mapOfJson? {α : Type} (read : Json → Option α) : Json → Option (OrderedMap α)
  | .object members => do
    let entries ← members.mapM fun m => do some (m.1, ← read m.2)
    some (.ofList entries)
  | _ => none

def listOfJson? : Json → Option (List String)
  | .array items => items.mapM Json.string?
  | _ => none

/-- What to write for an annotation type: an attribute, or null for nothing. -/
def markOfJson? : Json → Option (Option String)
  | .null => some none
  | v => v.string?.map some

/-- A natural number below 2⁶⁴. -/
def sizeOfJson? : Json → Option Nat
  | .nat value => if value < UInt64.size then some value else none
  | _ => none

/-- The names of the options. -/
def fieldNames : List String :=
  ["target", "indentWidth", "annotations", "extraImports", "genericNamespaces", "implicitImports",
    "outDir", "files"]

/-- Whether a value is a list of some of the options only. -/
def isIncomplete : Json → Bool
  | .array items => items.length < fieldNames.length
  | _ => false

def ofJson? (v : Json) : Option Options := do
  if isIncomplete v then none
  let fields ← v.record? fieldNames
  let target ← fields.optional? "target" fun v _ => (v.choice? false).bind Target.ofKey?
  let indentWidth ← fields.optional? "indentWidth" fun v _ => sizeOfJson? v
  let marks ← fields.optional? "annotations" fun v _ => mapOfJson? markOfJson? v
  let extraImports ← fields.optional? "extraImports" fun v _ => listOfJson? v
  let genericNamespaces ←
    fields.optional? "genericNamespaces" fun v _ => mapOfJson? Json.string? v
  let implicitImports ← fields.optional? "implicitImports" fun v _ => mapOfJson? Json.string? v
  let outDir ← fields.optional? "outDir" fun v _ => v.string?
  let files ← fields.optional? "files" fun v _ => listOfJson? v
  some ⟨target, indentWidth, marks, extraImports, genericNamespaces, implicitImports, outDir, files⟩

/-- What is read of a configuration file. -/
def shape : Json.Shape := .record (fieldNames.map (·, .whole))

/-- The options of a configuration file. -/
def ofText? (text : String) : Option Options := (Json.parse? none shape text).bind ofJson?

end Options

end Lockstep.Config
