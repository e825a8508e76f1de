import Lockstep.Proofs.Records

/-!
# Trees are read back

What is written for a tree is read as the tree it was written for, on its own or inside another.
The proofs follow the trees: below each node its parts are read back, and the record of the node
gives each part under the name of its field.

- `Name.ofJsonIn?_toJson`, `TypeRef.ofJsonIn?_toJson`, `Expr.ofJsonIn?_toJson`,
  `Stmt.ofJsonIn?_toJson`, `Member.ofJsonIn?_toJson`: trees of several forms.
- `CompilationUnit.ofJson?_toJson`: files.
-/

namespace Lockstep

open Json Text

namespace Tree

variable {inside : Bool}

/-! ## Places -/

@[simp]
theorem placeOfContent?_ofMembers {members : List (String × Json)}
    (h : (members.map Prod.fst).Nodup) : placeOfContent? (Content.ofMembers members h) =
      (members.lookup "range").bind Extent.ofJson? := by
  simp [placeOfContent?]

@[simp]
theorem placeOfJson?_record (extent : Extent) : placeOfJson? (record extent []) = some extent := by
  rw [placeOfJson?, record, content?_record [] .nil (by decide)]
  simp

/-! ## Names -/

@[simp]
theorem isNull_record (extent : Extent) (fields : List (String × Json)) :
    (record extent fields).isNull = false := by
  rw [record, Json.isNull]
  nofun

@[simp]
theorem MemberBinding.isNull_toJson (b : MemberBinding) : b.toJson.isNull = false := by
  rw [toJson, Json.isNull]
  nofun

@[simp]
theorem MemberBinding.ofJson?_toJson (b : MemberBinding) : ofJson? b.toJson = some b := by
  have hnames : ([("isStatic", Json.bool b.isStatic)].map Prod.fst).Nodup := List.nodup_singleton _
  rw [ofJson?, toJson, record?_object hnames]
  simp

@[simp]
theorem TypeBinding.isNull_toJson (b : TypeBinding) : b.toJson.isNull = false := by
  rw [toJson, Json.isNull]
  nofun

@[simp]
theorem TypeBinding.ofJson?_toJson (b : TypeBinding) : ofJson? b.toJson = some b := by
  have hnames : ([("qualifiedName", Json.string b.qualifiedName),
      ("isGeneric", .bool b.isGeneric)].map Prod.fst).Nodup :=
    show ["qualifiedName", "isGeneric"].Nodup by decide
  rw [ofJson?, toJson, record?_object hnames]
  simp

@[simp]
theorem SimpleName.isNull_toJson (n : SimpleName) : n.toJson.isNull = false := isNull_record ..

@[simp]
theorem SimpleName.ofJson?_toJson (n : SimpleName) : ofJson? n.toJson = some n := by
  rw [ofJson?, toJson, record, content?_record ["identifier"] (.field .nil) (by decide)]
  simp [ofContent?]

@[simp]
theorem Name.isNull_toJson (n : Name) : n.toJson.isNull = false := by
  cases n <;> rfl

@[simp]
theorem Name.ofJsonIn?_toJson (n : Name) : ofJsonIn? inside n.toJson = some n := by
  induction n generalizing inside with
  | simple n =>
    rw [Name.toJson, taggedRecord, Name.ofJsonIn?,
      bind_taggedRecord ["identifier"] (.field .nil) (by decide)]
    simp [SimpleName.ofContent?]
  | qualified extent qualifier n binding ih =>
    simp only [Name.toJson, taggedRecord, List.cons_append, List.nil_append]
    rw [Name.ofJsonIn?, bind_taggedRecord ["qualifier", "name", "binding"]
      (.field (.field (.last binding))) (by decide)]
    simp [ih]

/-! ## Types -/

theorem TypeRef.toJsons_eq_map (types : List TypeRef) :
    TypeRef.toJsons types = types.map TypeRef.toJson := by
  induction types with
  | nil => rfl
  | cons type types ih => rw [TypeRef.toJsons, ih, List.map_cons]

@[simp]
theorem TypeRef.isNull_toJson (type : TypeRef) : type.toJson.isNull = false := by
  cases type <;> rw [TypeRef.toJson] <;> rfl

mutual

@[simp]
theorem TypeRef.ofJsonIn?_toJson (type : TypeRef) (inside : Bool) :
    TypeRef.ofJsonIn? inside type.toJson = some type := by
  match type with
  | .primitive extent p =>
    rw [TypeRef.toJson, taggedRecord, TypeRef.ofJsonIn?,
      bind_taggedRecord ["primitive"] (.field .nil) (by decide)]
    simp [p.ofKeyword?_keyword]
  | .named extent n binding =>
    rw [TypeRef.toJson, taggedRecord, TypeRef.ofJsonIn?,
      bind_taggedRecord ["name", "binding"] (.field (.last binding)) (by decide)]
    simp
  | .array extent element dimensions =>
    rw [TypeRef.toJson, taggedRecord, TypeRef.ofJsonIn?,
      bind_taggedRecord ["elementType", "dimensions"] (.field (.field .nil)) (by decide)]
    simp [element.ofJsonIn?_toJson true]
  | .parameterized extent base arguments =>
    have harguments := readList?_map (TypeRef.ofJsonIn?_mem arguments)
    rw [TypeRef.toJson, taggedRecord, TypeRef.toJsons_eq_map, TypeRef.ofJsonIn?,
      bind_taggedRecord ["type", "typeArguments"] (.field (.field .nil)) (by decide)]
    simp [base.ofJsonIn?_toJson true, harguments]
  | .wildcard extent =>
    rw [TypeRef.toJson, taggedRecord, TypeRef.ofJsonIn?,
      bind_taggedRecord [] .nil (by decide)]
    simp

theorem TypeRef.ofJsonIn?_mem (types : List TypeRef) :
    ∀ type ∈ types, TypeRef.ofJsonIn? true type.toJson = some type := by
  match types with
  | [] => exact nofun
  | type :: types =>
    exact List.forall_mem_cons.2 ⟨type.ofJsonIn?_toJson true, TypeRef.ofJsonIn?_mem types⟩

end

/-- Types in a list are read back. -/
@[simp]
theorem readList?_types (types : List TypeRef) :
    readList? (TypeRef.ofJsonIn? inside) (.array (TypeRef.toJsons types)) = some types := by
  rw [TypeRef.toJsons_eq_map]
  exact readList?_map fun type _ => type.ofJsonIn?_toJson inside

/-! ## Expressions -/

theorem Expr.toJsons_eq_map (es : List Expr) : Expr.toJsons es = es.map Expr.toJson := by
  induction es with
  | nil => rfl
  | cons e es ih => rw [Expr.toJsons, ih, List.map_cons]

theorem Expr.toField_eq (name : String) (o : Option Expr) :
    Expr.toField name o = optionalField name Expr.toJson o := by
  cases o <;> rfl

@[simp]
theorem Expr.isNull_toJson (e : Expr) : e.toJson.isNull = false := by
  cases e with
  | name n => exact n.isNull_toJson
  | _ => rw [Expr.toJson]; rfl

/-- A name is read as an expression. -/
theorem Expr.ofJsonIn?_name (n : Name) :
    Expr.ofJsonIn? inside n.toJson = some (.name n) := by
  have hname : Name.ofJsonIn? inside n.toJson = some n := n.ofJsonIn?_toJson
  cases n with
  | simple n =>
    rw [Name.toJson, taggedRecord] at hname ⊢
    rw [Expr.ofJsonIn?, bind_taggedRecord ["identifier"] (.field .nil) (by decide)]
    simp [hname]
  | qualified extent qualifier n binding =>
    simp only [Name.toJson, taggedRecord, List.cons_append, List.nil_append] at hname ⊢
    rw [Expr.ofJsonIn?, bind_taggedRecord ["qualifier", "name", "binding"]
      (.field (.field (.last binding))) (by decide)]
    simp [hname]

mutual

@[simp]
theorem Expr.ofJsonIn?_toJson (e : Expr) (inside : Bool) :
    Expr.ofJsonIn? inside e.toJson = some e := by
  match e with
  | .name n =>
    rw [Expr.toJson]
    exact Expr.ofJsonIn?_name n
  | .literal kind extent token =>
    rw [Expr.toJson, taggedRecord, Expr.ofJsonIn?,
      bind_taggedRecord ["token"] (.field .nil) (by decide)]
    cases kind <;> simp [LiteralKind.kind, Kind.name, LiteralKind.ofContent?]
  | .boolean extent value =>
    rw [Expr.toJson, taggedRecord, Expr.ofJsonIn?,
      bind_taggedRecord ["value"] (.field .nil) (by decide)]
    simp
  | .null extent =>
    rw [Expr.toJson, taggedRecord, Expr.ofJsonIn?, bind_taggedRecord [] .nil (by decide)]
    simp
  | .this extent qualifier =>
    rw [Expr.toJson, taggedRecord, Expr.ofJsonIn?,
      bind_taggedRecord ["qualifier"] (.last qualifier) (by decide)]
    simp
  | .parenthesized extent inner =>
    rw [Expr.toJson, taggedRecord, Expr.ofJsonIn?,
      bind_taggedRecord ["expression"] (.field .nil) (by decide)]
    simp [inner.ofJsonIn?_toJson true]
  | .binary extent left op right more =>
    have hmore := readList?_map (Expr.ofJsonIn?_mem more)
    rw [Expr.toJson, taggedRecord, Expr.toJsons_eq_map, Expr.ofJsonIn?,
      bind_taggedRecord ["left", "operator", "right", "extendedOperands"]
        (.field (.field (.field (.field .nil)))) (by decide)]
    simp [left.ofJsonIn?_toJson true, right.ofJsonIn?_toJson true, op.ofToken?_token, hmore]
  | .unary extent op operand =>
    rw [Expr.toJson, taggedRecord, Expr.ofJsonIn?,
      bind_taggedRecord ["operator", "operand"] (.field (.field .nil)) (by decide)]
    simp [operand.ofJsonIn?_toJson true, op.ofToken?_token]
  | .step extent operand op =>
    rw [Expr.toJson, taggedRecord, Expr.ofJsonIn?,
      bind_taggedRecord ["operand", "operator"] (.field (.field .nil)) (by decide)]
    simp [operand.ofJsonIn?_toJson true, op.ofToken?_token]
  | .assign extent left op right =>
    rw [Expr.toJson, taggedRecord, Expr.ofJsonIn?,
      bind_taggedRecord ["left", "operator", "right"] (.field (.field (.field .nil)))
        (by decide)]
    simp [left.ofJsonIn?_toJson true, right.ofJsonIn?_toJson true, op.ofToken?_token]
  | .conditional extent condition positive negative =>
    rw [Expr.toJson, taggedRecord, Expr.ofJsonIn?,
      bind_taggedRecord ["condition", "thenExpression", "elseExpression"]
        (.field (.field (.field .nil))) (by decide)]
    simp [condition.ofJsonIn?_toJson true, positive.ofJsonIn?_toJson true,
      negative.ofJsonIn?_toJson true]
  | .call extent receiver typeArguments n arguments binding =>
    have hreceiver := readOptional?_map Expr.isNull_toJson (Expr.ofJsonIn?_part receiver)
    have harguments := readList?_map (Expr.ofJsonIn?_mem arguments)
    simp only [Expr.toJson, taggedRecord, Expr.toField_eq, Expr.toJsons_eq_map, typesField,
      List.append_assoc, List.cons_append, List.nil_append]
    rw [Expr.ofJsonIn?,
      bind_taggedRecord ["expression", "typeArguments", "name", "arguments", "binding"]
        (.optional receiver (.field (.field (.field (.last binding))))) (by decide)]
    simp [hreceiver, harguments]
  | .superCall extent qualifier typeArguments n arguments binding =>
    have harguments := readList?_map (Expr.ofJsonIn?_mem arguments)
    simp only [Expr.toJson, taggedRecord, Expr.toJsons_eq_map, typesField, List.append_assoc,
      List.cons_append, List.nil_append]
    rw [Expr.ofJsonIn?,
      bind_taggedRecord ["qualifier", "typeArguments", "name", "arguments", "binding"]
        (.optional qualifier (.field (.field (.field (.last binding))))) (by decide)]
    simp [harguments]
  | .field extent receiver n binding =>
    simp only [Expr.toJson, taggedRecord, List.cons_append, List.nil_append]
    rw [Expr.ofJsonIn?, bind_taggedRecord ["expression", "name", "binding"]
      (.field (.field (.last binding))) (by decide)]
    simp [receiver.ofJsonIn?_toJson true]
  | .superField extent qualifier n binding =>
    simp only [Expr.toJson, taggedRecord, List.append_assoc, List.cons_append, List.nil_append]
    rw [Expr.ofJsonIn?, bind_taggedRecord ["qualifier", "name", "binding"]
      (.optional qualifier (.field (.last binding))) (by decide)]
    simp
  | .index extent base position =>
    rw [Expr.toJson, taggedRecord, Expr.ofJsonIn?,
      bind_taggedRecord ["array", "index"] (.field (.field .nil)) (by decide)]
    simp [base.ofJsonIn?_toJson true, position.ofJsonIn?_toJson true]
  | .create extent outer typeArguments type arguments body =>
    have houter := readOptional?_map Expr.isNull_toJson (Expr.ofJsonIn?_part outer)
    have harguments := readList?_map (Expr.ofJsonIn?_mem arguments)
    simp only [Expr.toJson, taggedRecord, Expr.toField_eq, Expr.toJsons_eq_map, typesField,
      List.append_assoc, List.cons_append, List.nil_append]
    rw [Expr.ofJsonIn?, bind_taggedRecord
      ["expression", "typeArguments", "type", "arguments", "anonymousClassDeclaration"]
        (.optional outer (.field (.field (.field (.last body))))) (by decide)]
    simp [houter, harguments]
  | .cast extent type operand =>
    rw [Expr.toJson, taggedRecord, Expr.ofJsonIn?,
      bind_taggedRecord ["type", "expression"] (.field (.field .nil)) (by decide)]
    simp [operand.ofJsonIn?_toJson true]
  | .instanceOf extent left type =>
    rw [Expr.toJson, taggedRecord, Expr.ofJsonIn?,
      bind_taggedRecord ["left", "rightOperand"] (.field (.field .nil)) (by decide)]
    simp [left.ofJsonIn?_toJson true]
  | .other form extent =>
    rw [Expr.toJson, taggedRecord, Expr.ofJsonIn?, bind_taggedRecord [] .nil (by decide)]
    cases form <;> simp [ExprForm.kind, Kind.name, ExprForm.ofContent?]

theorem Expr.ofJsonIn?_mem (es : List Expr) :
    ∀ e ∈ es, Expr.ofJsonIn? true e.toJson = some e := by
  match es with
  | [] => exact nofun
  | e :: es => exact List.forall_mem_cons.2 ⟨e.ofJsonIn?_toJson true, Expr.ofJsonIn?_mem es⟩

theorem Expr.ofJsonIn?_part (o : Option Expr) :
    ∀ e ∈ o, Expr.ofJsonIn? true e.toJson = some e := by
  match o with
  | none => exact nofun
  | some e =>
    intro _ he
    cases he
    exact e.ofJsonIn?_toJson true

end

/-! ## Modifiers and variables -/

@[simp]
theorem Modifier.ofJsonIn?_toJson (m : Modifier) : Modifier.ofJsonIn? inside m.toJson = some m := by
  cases m with
  | word extent w =>
    rw [Modifier.toJson, taggedRecord, Modifier.ofJsonIn?,
      bind_taggedRecord ["keyword"] (.field .nil) (by decide)]
    simp [w.ofToken?_token]
  | annotated mark =>
    simp only [Modifier.toJson, taggedRecord, List.cons_append, List.nil_append]
    rw [Modifier.ofJsonIn?, bind_taggedRecord ["annotationKind", "typeName", "binding"]
      (.field (.field (.last mark.binding))) (by decide)]
    simp [mark.form.ofKey?_key]

@[simp]
theorem Fragment.ofJsonIn?_toJson (f : Fragment) : Fragment.ofJsonIn? inside f.toJson = some f := by
  simp only [toJson, record, List.cons_append, List.nil_append]
  rw [ofJsonIn?, record?_record ["name", "extraDimensions", "initializer"]
    (.field (.field (.last f.initial))) (by decide)]
  simp

/-! ## Statements -/

theorem Stmt.toJsons_eq_map (stmts : List Stmt) : Stmt.toJsons stmts = stmts.map Stmt.toJson := by
  induction stmts with
  | nil => rfl
  | cons stmt stmts ih => rw [Stmt.toJsons, ih, List.map_cons]

theorem Stmt.toField_eq (name : String) (o : Option Stmt) :
    Stmt.toField name o = optionalField name Stmt.toJson o := by
  cases o <;> rfl

@[simp]
theorem Stmt.isNull_toJson (stmt : Stmt) : stmt.toJson.isNull = false := by
  cases stmt <;> rw [Stmt.toJson] <;> rfl

mutual

@[simp]
theorem Stmt.ofJsonIn?_toJson (stmt : Stmt) (inside : Bool) :
    Stmt.ofJsonIn? inside stmt.toJson = some stmt := by
  match stmt with
  | .block extent statements =>
    have hstatements := readList?_map (Stmt.ofJsonIn?_mem statements)
    rw [Stmt.toJson, taggedRecord, Stmt.toJsons_eq_map, Stmt.ofJsonIn?,
      bind_taggedRecord ["statements"] (.field .nil) (by decide)]
    simp [hstatements]
  | .expression extent e =>
    rw [Stmt.toJson, taggedRecord, Stmt.ofJsonIn?,
      bind_taggedRecord ["expression"] (.field .nil) (by decide)]
    simp
  | .declare extent modifiers type fragments =>
    rw [Stmt.toJson, taggedRecord, listField, listField, Stmt.ofJsonIn?,
      bind_taggedRecord ["modifiers", "type", "fragments"] (.field (.field (.field .nil)))
        (by decide)]
    simp
  | .returns extent value =>
    rw [Stmt.toJson, taggedRecord, Stmt.ofJsonIn?,
      bind_taggedRecord ["expression"] (.last value) (by decide)]
    simp
  | .ifElse extent condition positive negative =>
    have hnegative := readOptional?_map Stmt.isNull_toJson (Stmt.ofJsonIn?_part negative)
    simp only [Stmt.toJson, taggedRecord, Stmt.toField_eq, List.cons_append, List.nil_append]
    rw [Stmt.ofJsonIn?, bind_taggedRecord ["expression", "thenStatement", "elseStatement"]
      (.field (.field (.last negative))) (by decide)]
    simp [positive.ofJsonIn?_toJson true, hnegative]
  | .whileLoop extent condition body =>
    rw [Stmt.toJson, taggedRecord, Stmt.ofJsonIn?,
      bind_taggedRecord ["expression", "body"] (.field (.field .nil)) (by decide)]
    simp [body.ofJsonIn?_toJson true]
  | .doLoop extent body condition =>
    rw [Stmt.toJson, taggedRecord, Stmt.ofJsonIn?,
      bind_taggedRecord ["body", "expression"] (.field (.field .nil)) (by decide)]
    simp [body.ofJsonIn?_toJson true]
  | .empty extent =>
    rw [Stmt.toJson, taggedRecord, Stmt.ofJsonIn?, bind_taggedRecord [] .nil (by decide)]
    simp
  | .jump word extent label =>
    rw [Stmt.toJson, taggedRecord, Stmt.ofJsonIn?,
      bind_taggedRecord ["label"] (.last label) (by decide)]
    cases word <;> simp [JumpWord.kind, Kind.name, JumpWord.ofContent?]
  | .throws extent value =>
    rw [Stmt.toJson, taggedRecord, Stmt.ofJsonIn?,
      bind_taggedRecord ["expression"] (.field .nil) (by decide)]
    simp
  | .other form extent =>
    rw [Stmt.toJson, taggedRecord, Stmt.ofJsonIn?, bind_taggedRecord [] .nil (by decide)]
    cases form <;> simp [StmtForm.kind, Kind.name, StmtForm.ofContent?]

theorem Stmt.ofJsonIn?_mem (stmts : List Stmt) :
    ∀ stmt ∈ stmts, Stmt.ofJsonIn? true stmt.toJson = some stmt := by
  match stmts with
  | [] => exact nofun
  | stmt :: stmts =>
    exact List.forall_mem_cons.2 ⟨stmt.ofJsonIn?_toJson true, Stmt.ofJsonIn?_mem stmts⟩

theorem Stmt.ofJsonIn?_part (o : Option Stmt) :
    ∀ stmt ∈ o, Stmt.ofJsonIn? true stmt.toJson = some stmt := by
  match o with
  | none => exact nofun
  | some stmt =>
    intro _ hstmt
    cases hstmt
    exact stmt.ofJsonIn?_toJson true

end

@[simp]
theorem Block.isNull_toJson (b : Block) : b.toJson.isNull = false := isNull_record ..

@[simp]
theorem Block.ofJsonIn?_toJson (b : Block) : Block.ofJsonIn? inside b.toJson = some b := by
  rw [toJson, record, Stmt.toJsons_eq_map, ofJsonIn?,
    record?_record ["statements"] (.field .nil) (by decide)]
  simp

/-! ## Declarations -/

@[simp]
theorem Parameter.ofJsonIn?_toJson (p : Parameter) :
    Parameter.ofJsonIn? inside p.toJson = some p := by
  rw [toJson, record, listField, ofJsonIn?,
    record?_record ["modifiers", "type", "isVarargs", "name", "extraDimensions"]
      (.field (.field (.field (.field (.field .nil))))) (by decide)]
  simp

/-- The fields of a field declaration but its kind and its place. -/
def FieldDecl.toFields (f : FieldDecl) : List (String × Json) :=
  [listField "modifiers" Modifier.toJson f.modifiers, ("type", f.type.toJson),
    listField "fragments" Fragment.toJson f.fragments]

/-- The fields of a method declaration but its kind and its place. -/
def MethodDecl.toFields (m : MethodDecl) : List (String × Json) :=
  listField "modifiers" Modifier.toJson m.modifiers ::
    listField "typeParameters" (record · []) m.typeParameters ::
    (optionalField "returnType" TypeRef.toJson m.returnType ++
      ("isConstructor", .bool m.isConstructor) :: ("name", m.name.toJson) ::
      listField "parameters" Parameter.toJson m.parameters ::
      ("extraDimensions", .nat m.extraDimensions.toNat) ::
      typesField "thrownExceptions" m.thrown :: optionalField "body" Block.toJson m.body)

theorem FieldDecl.toJson_eq (f : FieldDecl) :
    f.toJson = .object (("kind", .string "FieldDeclaration") :: ("range", f.extent.toJson) ::
      f.toFields) := rfl

theorem MethodDecl.toJson_eq (m : MethodDecl) :
    m.toJson = .object (("kind", .string "MethodDeclaration") :: ("range", m.extent.toJson) ::
      m.toFields) := by
  simp only [toJson, toFields, taggedRecord, List.append_assoc, List.cons_append, List.nil_append]

theorem FieldDecl.toFields_named (f : FieldDecl) :
    Named ["modifiers", "type", "fragments"] f.toFields := .field (.field (.field .nil))

theorem MethodDecl.toFields_named (m : MethodDecl) :
    Named ["modifiers", "typeParameters", "returnType", "isConstructor", "name", "parameters",
      "extraDimensions", "thrownExceptions", "body"] m.toFields :=
  .field (.field (.optional m.returnType (.field (.field (.field (.field
    (.field (.last m.body))))))))

theorem FieldDecl.ofContent?_toFields (f : FieldDecl) {kind : String}
    (h : ((("kind", Json.string kind) :: ("range", f.extent.toJson) :: f.toFields).map
      Prod.fst).Nodup) : ofContent? (Content.ofMembers _ h) = some f := by
  rw [ofContent?, Content.fields?_ofMembers]
  simp [toFields, listField]

theorem MethodDecl.ofContent?_toFields (m : MethodDecl) {kind : String}
    (h : ((("kind", Json.string kind) :: ("range", m.extent.toJson) :: m.toFields).map
      Prod.fst).Nodup) : ofContent? (Content.ofMembers _ h) = some m := by
  rw [ofContent?, Content.fields?_ofMembers]
  simp [toFields, listField, typesField]

/-- A field that stands by itself. -/
def FieldDecl.ofJson? (v : Json) : Option FieldDecl := v.content?.bind ofContent?

/-- A method that stands by itself. -/
def MethodDecl.ofJson? (v : Json) : Option MethodDecl := v.content?.bind ofContent?

theorem FieldDecl.ofJson?_toJson (f : FieldDecl) : ofJson? f.toJson = some f := by
  rw [toJson_eq, ofJson?, content?_taggedRecord _ f.toFields_named (by decide)]
  exact f.ofContent?_toFields _

theorem MethodDecl.ofJson?_toJson (m : MethodDecl) : ofJson? m.toJson = some m := by
  rw [toJson_eq, ofJson?, content?_taggedRecord _ m.toFields_named (by decide)]
  exact m.ofContent?_toFields _

namespace TypeHeader

/-- The fields of a type but its place. -/
def toFieldsWith (h : TypeHeader) (members : Json) : List (String × Json) :=
  h.toFields ++ [("bodyDeclarations", members)]

theorem toFieldsWith_named (h : TypeHeader) (members : Json) :
    Named ["declarationKind", "modifiers", "name", "typeParameters", "superclassType",
      "superInterfaceTypes", "bodyDeclarations"] (h.toFieldsWith members) := by
  simp only [toFieldsWith, toFields, listField, typesField, List.append_assoc, List.cons_append,
    List.nil_append]
  exact .field (.field (.field (.field (.optional h.superclass (.field (.field .nil))))))

theorem lookup_toFieldsWith (h : TypeHeader) (members : Json) :
    (h.toFieldsWith members).lookup "bodyDeclarations" = some members := by
  simp [toFieldsWith, toFields, listField, typesField]

/-- The header is read back from an object that has its fields. -/
theorem ofFields?_ofMembers {fields : List (String × Json)} {members : Json} (h : TypeHeader)
    (hfields : ∀ name, name ≠ "kind" → fields.lookup name =
      List.lookup name (("range", h.extent.toJson) :: h.toFieldsWith members)) :
    ofFields? inside (Fields.ofMembers fields) = some h := by
  simp only [toFieldsWith, toFields, listField, typesField, List.append_assoc, List.cons_append,
    List.nil_append] at hfields
  simp [ofFields?, hfields, h.form.ofKey?_key]

end TypeHeader

theorem Member.toJsons_eq_map (members : List Member) :
    Member.toJsons members = members.map Member.toJson := by
  induction members with
  | nil => rfl
  | cons m members ih => rw [Member.toJsons, ih, List.map_cons]

mutual

@[simp]
theorem Member.ofJsonIn?_toJson (m : Member) (inside : Bool) :
    Member.ofJsonIn? inside m.toJson = some m := by
  match m with
  | .field f =>
    rw [Member.toJson, f.toJson_eq, Member.ofJsonIn?,
      bind_taggedRecord _ f.toFields_named (by decide)]
    simp only [f.ofContent?_toFields, Option.map_some]
  | .method m =>
    rw [Member.toJson, m.toJson_eq, Member.ofJsonIn?,
      bind_taggedRecord _ m.toFields_named (by decide)]
    simp only [m.ofContent?_toFields, Option.map_some]
  | .type header members =>
    have hmembers := readList?_map (Member.ofJsonIn?_mem members)
    have hheader : TypeHeader.ofFields? true (Fields.ofMembers
        (("kind", .string "TypeDeclaration") :: ("range", header.extent.toJson) ::
          header.toFieldsWith (.array (members.map Member.toJson)))) = some header :=
      header.ofFields?_ofMembers fun name hname => lookup_member.trans (if_neg hname)
    rw [Member.toJson, taggedRecord, Member.toJsons_eq_map, ← TypeHeader.toFieldsWith,
      Member.ofJsonIn?, bind_taggedRecord _ (header.toFieldsWith_named _) (by decide)]
    simp [hheader, header.lookup_toFieldsWith, hmembers]
  | .setup extent =>
    rw [Member.toJson, taggedRecord, Member.ofJsonIn?, bind_taggedRecord [] .nil (by decide)]
    simp

theorem Member.ofJsonIn?_mem (members : List Member) :
    ∀ m ∈ members, Member.ofJsonIn? true m.toJson = some m := by
  match members with
  | [] => exact nofun
  | m :: members =>
    exact List.forall_mem_cons.2 ⟨m.ofJsonIn?_toJson true, Member.ofJsonIn?_mem members⟩

end

@[simp]
theorem TypeDecl.ofJson?_toJson (t : TypeDecl) : ofJson? t.toJson = some t := by
  have hheader : TypeHeader.ofFields? false (Fields.ofMembers (("range", t.header.extent.toJson) ::
      t.header.toFieldsWith (.array (t.members.map Member.toJson)))) = some t.header :=
    t.header.ofFields?_ofMembers fun name _ => rfl
  rw [toJson, record, Member.toJsons_eq_map, ← TypeHeader.toFieldsWith, ofJson?,
    record?_record _ (t.header.toFieldsWith_named _) (by decide)]
  simp [hheader, t.header.lookup_toFieldsWith, Member.ofJson?]

/-! ## Files -/

@[simp]
theorem PackageDecl.isNull_toJson (p : PackageDecl) : p.toJson.isNull = false := isNull_record ..

@[simp]
theorem PackageDecl.ofJson?_toJson (p : PackageDecl) : ofJson? p.toJson = some p := by
  rw [toJson, record, ofJson?, record?_record ["name"] (.field .nil) (by decide)]
  simp [Name.ofJson?]

@[simp]
theorem ImportDecl.ofJson?_toJson (i : ImportDecl) : ofJson? i.toJson = some i := by
  simp only [toJson, record, List.cons_append, List.nil_append]
  rw [ofJson?, record?_record ["name", "isStatic", "isOnDemand", "binding"]
    (.field (.field (.field (.last i.binding)))) (by decide)]
  simp [Name.ofJson?]

theorem CompilationUnit.ofJson?_toJson (u : CompilationUnit) : ofJson? u.toJson = some u := by
  simp only [toJson, record, listField]
  rw [ofJson?, record?_record ["package", "imports", "types"]
    (.optional u.package (.field (.field .nil))) (by decide)]
  simp

end Tree

end Lockstep
