import Lockstep.Batch.Basic
import Lockstep.Proofs.JsonText
import Lockstep.Proofs.TreeFormat

/-!
# The texts of trees

A tree can be written as text and read again, whatever it is a tree of. Its numbers are offsets of 32
bits, so that its text has no number that is read as another; and down to its types each field that
is written is one of those that are read. Only where the reader takes no more than so many nested
containers the tree must not be nested deeper.

- `Format.Sound`: what is written can be read, and is read back.
- `Form.reads_back`: trees of every form.
- `Batch.treeOfText?_text`: the trees of files.
-/

namespace Lockstep

open Json Text

namespace Tree

section

variable {α : Type} {P : String → Json → Prop} {fields more : List (String × Json)} {name : String}
  {write : α → Json}

/-! ## Fields -/

/-- What is written of each field is as it should be under the name of the field. -/
def Each (P : String → Json → Prop) (fields : List (String × Json)) : Prop :=
  ∀ m ∈ fields, P m.1 m.2

@[simp]
theorem each_nil : Each P [] := nofun

@[simp]
theorem each_cons {v : Json} : Each P ((name, v) :: fields) ↔ P name v ∧ Each P fields :=
  List.forall_mem_cons

@[simp]
theorem each_append : Each P (fields ++ more) ↔ Each P fields ∧ Each P more :=
  List.forall_mem_append

@[simp]
theorem each_optionalField {o : Option α} :
    Each P (optionalField name write o) ↔ ∀ x ∈ o, P name (write x) := by
  cases o with
  | none => exact ⟨fun _ => nofun, fun _ => nofun⟩
  | some x => simp [optionalField]

/-! ## Numbers are offsets -/

@[simp]
theorem isPlain_nat (n : UInt32) : (Json.nat n.toNat).IsPlain := .nat n.toNat_lt

@[simp]
theorem isPlain_string (value : String) : (Json.string value).IsPlain := .string value

@[simp]
theorem isPlain_bool (value : Bool) : (Json.bool value).IsPlain := .bool value

@[simp]
theorem isPlain_object : (Json.object fields).IsPlain ↔ Each (fun _ v => v.IsPlain) fields :=
  ⟨fun | .object h => h, .object⟩

@[simp]
theorem isPlain_map {xs : List α} :
    (Json.array (xs.map write)).IsPlain ↔ ∀ x ∈ xs, (write x).IsPlain :=
  ⟨fun | .array h => List.forall_mem_map.1 h, fun h => .array (List.forall_mem_map.2 h)⟩

@[simp]
theorem Extent.isPlain_toJson (e : Extent) : e.toJson.IsPlain := by simp [Extent.toJson]

@[simp]
theorem isPlain_record {extent : Extent} :
    (record extent fields).IsPlain ↔ Each (fun _ v => v.IsPlain) fields := by simp [record]

@[simp]
theorem isPlain_taggedRecord {kind : String} {extent : Extent} :
    (taggedRecord kind extent fields).IsPlain ↔ Each (fun _ v => v.IsPlain) fields := by
  simp [taggedRecord]

@[simp]
theorem MemberBinding.isPlain_toJson (b : MemberBinding) : b.toJson.IsPlain := by simp [toJson]

@[simp]
theorem TypeBinding.isPlain_toJson (b : TypeBinding) : b.toJson.IsPlain := by simp [toJson]

@[simp]
theorem SimpleName.isPlain_toJson (n : SimpleName) : n.toJson.IsPlain := by simp [toJson]

@[simp]
theorem Name.isPlain_toJson (n : Name) : n.toJson.IsPlain := by
  induction n with
  | simple n => simp [toJson]
  | qualified extent qualifier n binding ih => simp [toJson, ih]

mutual

@[simp]
theorem TypeRef.isPlain_toJson (type : TypeRef) : type.toJson.IsPlain := by
  match type with
  | .primitive extent p => simp [TypeRef.toJson]
  | .named extent n binding => simp [TypeRef.toJson]
  | .array extent element dimensions => simp [TypeRef.toJson, element.isPlain_toJson]
  | .parameterized extent base arguments =>
    have harguments := TypeRef.isPlain_mem arguments
    simpa [TypeRef.toJson, TypeRef.toJsons_eq_map, base.isPlain_toJson] using harguments
  | .wildcard extent => simp [TypeRef.toJson]

theorem TypeRef.isPlain_mem (types : List TypeRef) : ∀ type ∈ types, type.toJson.IsPlain := by
  match types with
  | [] => exact nofun
  | type :: types =>
    exact List.forall_mem_cons.2 ⟨type.isPlain_toJson, TypeRef.isPlain_mem types⟩

end

@[simp]
theorem isPlain_types (types : List TypeRef) : (Json.array (TypeRef.toJsons types)).IsPlain := by
  simp [TypeRef.toJsons_eq_map]

mutual

@[simp]
theorem Expr.isPlain_toJson (e : Expr) : e.toJson.IsPlain := by
  match e with
  | .name n => simp [Expr.toJson]
  | .literal kind extent token => simp [Expr.toJson]
  | .boolean extent value => simp [Expr.toJson]
  | .null extent => simp [Expr.toJson]
  | .this extent qualifier => simp [Expr.toJson]
  | .parenthesized extent inner => simp [Expr.toJson, inner.isPlain_toJson]
  | .binary extent left op right more =>
    have hmore := Expr.isPlain_mem more
    simpa [Expr.toJson, Expr.toJsons_eq_map, left.isPlain_toJson, right.isPlain_toJson] using hmore
  | .unary extent op operand => simp [Expr.toJson, operand.isPlain_toJson]
  | .step extent operand op => simp [Expr.toJson, operand.isPlain_toJson]
  | .assign extent left op right =>
    simp [Expr.toJson, left.isPlain_toJson, right.isPlain_toJson]
  | .conditional extent condition positive negative =>
    simp [Expr.toJson, condition.isPlain_toJson, positive.isPlain_toJson, negative.isPlain_toJson]
  | .call extent receiver typeArguments n arguments binding =>
    have hreceiver := Expr.isPlain_part receiver
    have harguments := Expr.isPlain_mem arguments
    simpa [Expr.toJson, Expr.toField_eq, Expr.toJsons_eq_map, typesField] using
      ⟨hreceiver, harguments⟩
  | .superCall extent qualifier typeArguments n arguments binding =>
    have harguments := Expr.isPlain_mem arguments
    simpa [Expr.toJson, Expr.toJsons_eq_map, typesField] using harguments
  | .field extent receiver n binding => simp [Expr.toJson, receiver.isPlain_toJson]
  | .superField extent qualifier n binding => simp [Expr.toJson]
  | .index extent base position => simp [Expr.toJson, base.isPlain_toJson, position.isPlain_toJson]
  | .create extent outer typeArguments type arguments body =>
    have houter := Expr.isPlain_part outer
    have harguments := Expr.isPlain_mem arguments
    simpa [Expr.toJson, Expr.toField_eq, Expr.toJsons_eq_map, typesField] using
      ⟨houter, harguments⟩
  | .cast extent type operand => simp [Expr.toJson, operand.isPlain_toJson]
  | .instanceOf extent left type => simp [Expr.toJson, left.isPlain_toJson]
  | .other form extent => simp [Expr.toJson]

theorem Expr.isPlain_mem (es : List Expr) : ∀ e ∈ es, e.toJson.IsPlain := by
  match es with
  | [] => exact nofun
  | e :: es => exact List.forall_mem_cons.2 ⟨e.isPlain_toJson, Expr.isPlain_mem es⟩

theorem Expr.isPlain_part (o : Option Expr) : ∀ e ∈ o, e.toJson.IsPlain := by
  match o with
  | none => exact nofun
  | some e =>
    intro _ he
    cases he
    exact e.isPlain_toJson

end

@[simp]
theorem Modifier.isPlain_toJson (m : Modifier) : m.toJson.IsPlain := by
  cases m <;> simp [toJson]

@[simp]
theorem Fragment.isPlain_toJson (f : Fragment) : f.toJson.IsPlain := by simp [toJson]

mutual

@[simp]
theorem Stmt.isPlain_toJson (stmt : Stmt) : stmt.toJson.IsPlain := by
  match stmt with
  | .block extent statements =>
    have hstatements := Stmt.isPlain_mem statements
    simpa [Stmt.toJson, Stmt.toJsons_eq_map] using hstatements
  | .expression extent e => simp [Stmt.toJson]
  | .declare extent modifiers type fragments => simp [Stmt.toJson, listField]
  | .returns extent value => simp [Stmt.toJson]
  | .ifElse extent condition positive negative =>
    have hnegative := Stmt.isPlain_part negative
    simpa [Stmt.toJson, Stmt.toField_eq, positive.isPlain_toJson] using hnegative
  | .whileLoop extent condition body => simp [Stmt.toJson, body.isPlain_toJson]
  | .doLoop extent body condition => simp [Stmt.toJson, body.isPlain_toJson]
  | .empty extent => simp [Stmt.toJson]
  | .jump word extent label => simp [Stmt.toJson]
  | .throws extent value => simp [Stmt.toJson]
  | .other form extent => simp [Stmt.toJson]

theorem Stmt.isPlain_mem (stmts : List Stmt) : ∀ stmt ∈ stmts, stmt.toJson.IsPlain := by
  match stmts with
  | [] => exact nofun
  | stmt :: stmts => exact List.forall_mem_cons.2 ⟨stmt.isPlain_toJson, Stmt.isPlain_mem stmts⟩

theorem Stmt.isPlain_part (o : Option Stmt) : ∀ stmt ∈ o, stmt.toJson.IsPlain := by
  match o with
  | none => exact nofun
  | some stmt =>
    intro _ hstmt
    cases hstmt
    exact stmt.isPlain_toJson

end

@[simp]
theorem Block.isPlain_toJson (b : Block) : b.toJson.IsPlain := by
  simp [toJson, Stmt.toJsons_eq_map]

@[simp]
theorem Parameter.isPlain_toJson (p : Parameter) : p.toJson.IsPlain := by
  simp [toJson, listField]

@[simp]
theorem FieldDecl.isPlain_toJson (f : FieldDecl) : f.toJson.IsPlain := by
  simp [toJson, listField]

@[simp]
theorem MethodDecl.isPlain_toJson (m : MethodDecl) : m.toJson.IsPlain := by
  simp [toJson, listField, typesField]

@[simp]
theorem TypeHeader.isPlain_toFields (h : TypeHeader) :
    Each (fun _ v => v.IsPlain) h.toFields := by
  simp [toFields, listField, typesField]

mutual

@[simp]
theorem Member.isPlain_toJson (m : Member) : m.toJson.IsPlain := by
  match m with
  | .field f => simp [Member.toJson]
  | .method m => simp [Member.toJson]
  | .type header members =>
    have hmembers := Member.isPlain_mem members
    simpa [Member.toJson, Member.toJsons_eq_map] using hmembers
  | .setup extent => simp [Member.toJson]

theorem Member.isPlain_mem (members : List Member) : ∀ m ∈ members, m.toJson.IsPlain := by
  match members with
  | [] => exact nofun
  | m :: members => exact List.forall_mem_cons.2 ⟨m.isPlain_toJson, Member.isPlain_mem members⟩

end

@[simp]
theorem TypeDecl.isPlain_toJson (t : TypeDecl) : t.toJson.IsPlain := by
  simp [toJson, Member.toJsons_eq_map]

@[simp]
theorem PackageDecl.isPlain_toJson (p : PackageDecl) : p.toJson.IsPlain := by simp [toJson]

@[simp]
theorem ImportDecl.isPlain_toJson (i : ImportDecl) : i.toJson.IsPlain := by simp [toJson]

@[simp]
theorem CompilationUnit.isPlain_toJson (u : CompilationUnit) : u.toJson.IsPlain := by
  simp [toJson, listField]

/-! ## Fields are read -/

/-- The field is read, and what is written in it can be read. -/
def Reads (shape : Shape) (name : String) (v : Json) : Prop :=
  ∃ field, shape.member? name = some field ∧ IsRead field v

theorem isRead_object {shape : Shape} (h : Each (Reads shape) fields) :
    IsRead shape (.object fields) := .object h

@[simp]
theorem isRead_list {item : Shape} {xs : List α} (h : ∀ x ∈ xs, IsRead item (write x)) :
    IsRead (.list item) (.array (xs.map write)) := .array rfl (List.forall_mem_map.2 h)

@[simp]
theorem Extent.isRead_toJson (e : Extent) : IsRead Extent.shape e.toJson :=
  isRead_object (by simp [Reads, Extent.shape, Shape.member?])

@[simp]
theorem isRead_place (extent : Extent) : IsRead placeShape (record extent []) :=
  isRead_object (by simp [Reads, placeShape, Shape.member?])

@[simp]
theorem SimpleName.isRead_toJson (n : SimpleName) : IsRead SimpleName.shape n.toJson :=
  isRead_object (by simp [Reads, shape, Shape.member?])

@[simp]
theorem TypeBinding.isRead_toJson (b : TypeBinding) : IsRead TypeBinding.shape b.toJson :=
  isRead_object (by simp [Reads, shape, Shape.member?])

@[simp]
theorem TypeDecl.isRead_toJson (t : TypeDecl) : IsRead TypeDecl.shape t.toJson :=
  isRead_object (by
    simp [Reads, shape, Shape.member?, TypeHeader.toFields, listField, typesField,
      Member.toJsons_eq_map])

@[simp]
theorem PackageDecl.isRead_toJson (p : PackageDecl) : IsRead PackageDecl.shape p.toJson :=
  isRead_object (by simp [Reads, shape, Shape.member?])

@[simp]
theorem ImportDecl.isRead_toJson (i : ImportDecl) : IsRead ImportDecl.shape i.toJson :=
  isRead_object (by simp [Reads, shape, Shape.member?])

@[simp]
theorem CompilationUnit.isRead_toJson (u : CompilationUnit) :
    IsRead CompilationUnit.shape u.toJson :=
  isRead_object (by simp [Reads, shape, Shape.member?, listField])

end

/-! ## Formats -/

/-- How the trees of a type are written, how they are read, and which fields of their text are. -/
structure Format (α : Type) where
  write : α → Json
  read? : Json → Option α
  shape : Shape

namespace Format

variable {α : Type} {f : Format α}

/-- What is written can be read, and what is read of it is what was written. -/
structure Sound (f : Format α) : Prop where
  read?_write : ∀ x, f.read? (f.write x) = some x
  isPlain : ∀ x, (f.write x).IsPlain
  isRead : ∀ x, IsRead f.shape (f.write x)

/-- Trees whose text is read as a whole. -/
theorem Sound.ofWhole {write : α → Json} {read? : Json → Option α}
    (h : ∀ x, read? (write x) = some x) (hplain : ∀ x, (write x).IsPlain) :
    Sound ⟨write, read?, .whole⟩ := ⟨h, hplain, fun x => (hplain x).isRead⟩

/-- The text of a tree is read as the tree, as a whole or field by field, unless the tree is nested
too deep. -/
theorem Sound.parse?_write (hf : f.Sound) (x : α) (limit : Option Nat) {shape : Shape}
    (hshape : shape = .whole ∨ shape = f.shape) :
    (parse? limit shape (f.write x).text).bind f.read? =
      if Within limit (f.write x) then some x else none := by
  have hread : IsRead shape (f.write x) := by
    rcases hshape with rfl | rfl
    · exact (hf.isPlain x).isRead
    · exact hf.isRead x
  rw [parse?_text (hf.isPlain x) hread]
  split
  · exact hf.read?_write x
  · rfl

end Format

/-! ## Trees of every form -/

/-- The trees that may stand by themselves. -/
inductive Form where
  | unit
  | package
  | imported
  | type
  | field
  | method
  | member
  | parameter
  | fragment
  | modifier
  | typeRef
  | typeBinding
  | name
  | simpleName
  | memberBinding
  | expr
  | stmt
  | block

namespace Form

/-- The trees of a form. -/
def Value : Form → Type
  | .unit => CompilationUnit
  | .package => PackageDecl
  | .imported => ImportDecl
  | .type => TypeDecl
  | .field => FieldDecl
  | .method => MethodDecl
  | .member => Member
  | .parameter => Parameter
  | .fragment => Fragment
  | .modifier => Modifier
  | .typeRef => TypeRef
  | .typeBinding => TypeBinding
  | .name => Name
  | .simpleName => SimpleName
  | .memberBinding => MemberBinding
  | .expr => Expr
  | .stmt => Stmt
  | .block => Block

/-- How the trees of a form are written and read. -/
def format : (form : Form) → Format form.Value
  | .unit => ⟨CompilationUnit.toJson, CompilationUnit.ofJson?, CompilationUnit.shape⟩
  | .package => ⟨PackageDecl.toJson, PackageDecl.ofJson?, PackageDecl.shape⟩
  | .imported => ⟨ImportDecl.toJson, ImportDecl.ofJson?, ImportDecl.shape⟩
  | .type => ⟨TypeDecl.toJson, TypeDecl.ofJson?, TypeDecl.shape⟩
  | .field => ⟨FieldDecl.toJson, FieldDecl.ofJson?, .whole⟩
  | .method => ⟨MethodDecl.toJson, MethodDecl.ofJson?, .whole⟩
  | .member => ⟨Member.toJson, Member.ofJson?, .whole⟩
  | .parameter => ⟨Parameter.toJson, Parameter.ofJson?, .whole⟩
  | .fragment => ⟨Fragment.toJson, Fragment.ofJson?, .whole⟩
  | .modifier => ⟨Modifier.toJson, Modifier.ofJson?, .whole⟩
  | .typeRef => ⟨TypeRef.toJson, TypeRef.ofJson?, .whole⟩
  | .typeBinding => ⟨TypeBinding.toJson, TypeBinding.ofJson?, TypeBinding.shape⟩
  | .name => ⟨Name.toJson, Name.ofJson?, .whole⟩
  | .simpleName => ⟨SimpleName.toJson, SimpleName.ofJson?, SimpleName.shape⟩
  | .memberBinding => ⟨MemberBinding.toJson, MemberBinding.ofJson?, .whole⟩
  | .expr => ⟨Expr.toJson, Expr.ofJson?, .whole⟩
  | .stmt => ⟨Stmt.toJson, Stmt.ofJson?, .whole⟩
  | .block => ⟨Block.toJson, Block.ofJson?, .whole⟩

theorem sound (form : Form) : form.format.Sound := by
  cases form with
  | unit => exact ⟨CompilationUnit.ofJson?_toJson, CompilationUnit.isPlain_toJson,
      CompilationUnit.isRead_toJson⟩
  | package => exact ⟨PackageDecl.ofJson?_toJson, PackageDecl.isPlain_toJson,
      PackageDecl.isRead_toJson⟩
  | imported => exact ⟨ImportDecl.ofJson?_toJson, ImportDecl.isPlain_toJson,
      ImportDecl.isRead_toJson⟩
  | type => exact ⟨TypeDecl.ofJson?_toJson, TypeDecl.isPlain_toJson, TypeDecl.isRead_toJson⟩
  | field => exact .ofWhole FieldDecl.ofJson?_toJson FieldDecl.isPlain_toJson
  | method => exact .ofWhole MethodDecl.ofJson?_toJson MethodDecl.isPlain_toJson
  | member => exact .ofWhole (Member.ofJsonIn?_toJson · false) Member.isPlain_toJson
  | parameter => exact .ofWhole Parameter.ofJsonIn?_toJson Parameter.isPlain_toJson
  | fragment => exact .ofWhole Fragment.ofJsonIn?_toJson Fragment.isPlain_toJson
  | modifier => exact .ofWhole Modifier.ofJsonIn?_toJson Modifier.isPlain_toJson
  | typeRef => exact .ofWhole (TypeRef.ofJsonIn?_toJson · false) TypeRef.isPlain_toJson
  | typeBinding => exact ⟨TypeBinding.ofJson?_toJson, TypeBinding.isPlain_toJson,
      TypeBinding.isRead_toJson⟩
  | name => exact .ofWhole Name.ofJsonIn?_toJson Name.isPlain_toJson
  | simpleName => exact ⟨SimpleName.ofJson?_toJson, SimpleName.isPlain_toJson,
      SimpleName.isRead_toJson⟩
  | memberBinding => exact .ofWhole MemberBinding.ofJson?_toJson MemberBinding.isPlain_toJson
  | expr => exact .ofWhole (Expr.ofJsonIn?_toJson · false) Expr.isPlain_toJson
  | stmt => exact .ofWhole (Stmt.ofJsonIn?_toJson · false) Stmt.isPlain_toJson
  | block => exact .ofWhole Block.ofJsonIn?_toJson Block.isPlain_toJson

/-- What is written for a tree is read as the tree, and so is its text: however deep it is nested
where the reader has no limit, and up to the limit where it has one. -/
theorem reads_back (form : Form) (x : form.Value) :
    form.format.read? (form.format.write x) = some x ∧
      ∀ shape ∈ [.whole, form.format.shape],
        (parse? none shape (form.format.write x).text).bind form.format.read? = some x ∧
          ∀ most, (form.format.write x).depth ≤ most →
            (parse? (some most) shape (form.format.write x).text).bind form.format.read? =
              some x := by
  have hsound := form.sound
  refine ⟨hsound.read?_write x, fun shape hshape => ?_⟩
  have hcases : shape = .whole ∨ shape = form.format.shape := by simpa using hshape
  have hnone : Within none (form.format.write x) := nofun
  refine ⟨(hsound.parse?_write x none hcases).trans (if_pos hnone), fun most hmost => ?_⟩
  have hsome : Within (some most) (form.format.write x) := fun _ h => Option.some.inj h ▸ hmost
  exact (hsound.parse?_write x (some most) hcases).trans (if_pos hsome)

/-- A file with a package, read field by field. -/
theorem reads_back_unit :
    let u : CompilationUnit :=
      ⟨⟨0, 10⟩, some ⟨⟨0, 10⟩, .simple ⟨⟨8, 9⟩, "p"⟩⟩, [], []⟩
    u.toJson.depth ≤ 127 ∧
      (parse? (some 127) CompilationUnit.shape u.toJson.text).bind CompilationUnit.ofJson? =
        some u := by
  have hdepth : (CompilationUnit.toJson
      ⟨⟨0, 10⟩, some ⟨⟨0, 10⟩, .simple ⟨⟨8, 9⟩, "p"⟩⟩, [], []⟩).depth ≤ 127 := by decide +kernel
  have hshape : CompilationUnit.shape ∈ [.whole, (format .unit).shape] :=
    List.mem_cons_of_mem _ List.mem_cons_self
  exact ⟨hdepth, ((reads_back .unit _).2 _ hshape).2 127 hdepth⟩

end Form

end Tree

namespace Batch

open Lockstep.Tree

/-- The tree of a file is read back just if it is not nested too deep. -/
theorem treeOfText?_text (u : CompilationUnit) : treeOfText? u.toJson.text =
    if u.toJson.depth ≤ maxTreeDepth then some u else none := by
  have hread := (Form.sound .unit).parse?_write u (some maxTreeDepth) (.inr rfl)
  have hwithin : Within (some maxTreeDepth) u.toJson ↔ u.toJson.depth ≤ maxTreeDepth :=
    ⟨fun h => h _ rfl, fun h _ hmost => Option.some.inj hmost ▸ h⟩
  rw [treeOfText?]
  exact hread.trans (if_congr hwithin rfl rfl)

end Batch

end Lockstep
