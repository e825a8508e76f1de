import Lockstep.Tree.Printer
import Lockstep.Tree.Reader
import Mathlib.Data.List.Nodup

/-!
# Reading the records that are written

A record is written as an object whose members are its fields in their order, some of them left out.
No name comes twice, so the record is read, and what a field holds is the value that was written
under its name.

- `Fields.ofMembers`: the fields that are read from an object.
- `Fields.required?_ofMembers` and the like: what a field holds, as a member of the object.
- `Named`: members that are some of the fields of given names, in their order.
- `record?_record`, `bind_taggedRecord`: what is written is read.
-/

namespace Lockstep

open Json Text

namespace Json

variable {α : Type} {members : List (String × Json)}

/-! ## The members of an object -/

/-- The fields that are read from an object. -/
def Fields.ofMembers (members : List (String × Json)) : Fields (.object members) :=
  ⟨members.attach.map fun ⟨m, h⟩ => (m.1, ⟨m.2, sizeOf_member_lt h⟩)⟩

/-- What the fields of an object are read from if no two of its members have one name. -/
def Content.ofMembers (members : List (String × Json)) (_ : (members.map Prod.fst).Nodup) :
    Content (.object members) := .named (Fields.ofMembers members).values

theorem lookup_attach {whole : Json} (members : List (String × Json))
    (hlt : ∀ m ∈ members, sizeOf m.2 < sizeOf whole) (name : String) :
    ((members.attach.map fun ⟨m, h⟩ => (m.1, (⟨m.2, hlt m h⟩ : Inner whole))).lookup name).map
      Subtype.val = members.lookup name := by
  induction members with
  | nil => rfl
  | cons m members ih =>
    have hrest := ih fun m hm => hlt m (List.mem_cons_of_mem _ hm)
    rw [List.attach_cons, List.map_cons, List.lookup_cons, List.lookup_cons]
    split
    · rfl
    · rw [← hrest, List.map_map]
      rfl

theorem Fields.lookup_ofMembers (members : List (String × Json)) (name : String) :
    ((ofMembers members).values.lookup name).map Subtype.val = members.lookup name :=
  lookup_attach members (fun _ => sizeOf_member_lt) name

theorem Fields.map_fst_ofMembers (members : List (String × Json)) :
    (ofMembers members).values.map Prod.fst = members.map Prod.fst := by
  have hmap := congrArg (List.map Prod.fst) members.attach_map_subtype_val
  rw [List.map_map] at hmap
  rw [ofMembers, List.map_map]
  exact hmap

/-- Where no two members have one name, no name comes more than once. -/
theorem repeats_ofMembers (h : (members.map Prod.fst).Nodup) (name : String) :
    repeats (Fields.ofMembers members).values name = false := by
  have hcount : (members.map Prod.fst).count name ≤ 1 := List.nodup_iff_count_le_one.1 h name
  rw [← Fields.map_fst_ofMembers, List.count, List.countP_map, List.countP_eq_length_filter]
    at hcount
  exact decide_eq_false (Nat.not_lt.2 hcount)

@[simp]
theorem Content.fields?_ofMembers (h : (members.map Prod.fst).Nodup) (names : List String) :
    (Content.ofMembers members h).fields? names = some (Fields.ofMembers members) := by
  have hnone : names.any (repeats (Fields.ofMembers members).values) = false := by
    rw [List.any_eq_false]
    intro name _
    rw [repeats_ofMembers h]
    nofun
  rw [Content.ofMembers, Content.fields?, hnone]
  rfl

theorem record?_object (h : (members.map Prod.fst).Nodup) (names : List String) :
    (Json.object members).record? names = some (Fields.ofMembers members) :=
  Content.fields?_ofMembers h names

theorem tagged?_object {kind : String} (h : (members.map Prod.fst).Nodup)
    (hkind : members.lookup "kind" = some (.string kind)) (inside : Bool) (kinds : List String) :
    (Json.object members).tagged? inside kinds = some ⟨kind, .ofMembers members h⟩ := by
  have hlookup := Fields.lookup_ofMembers members "kind"
  rw [hkind] at hlookup
  obtain ⟨⟨v, hlt⟩, hv, rfl⟩ := Option.map_eq_some_iff.1 hlookup
  have hcontent : (Json.object members).content? = some (Content.ofMembers members h) := rfl
  rw [tagged?, hcontent]
  simp only [Content.ofMembers, hv, repeats_ofMembers h]
  rfl

/-! ## What a field holds -/

/-- What is read from a field that may be missing or null. -/
def readOptional? (read : Json → Option α) : Option Json → Option (Option α)
  | none => some none
  | some v => if v.isNull then some none else (read v).map some

/-- What is read from a list. -/
def readList? (read : Json → Option α) : Json → Option (List α)
  | .array items => items.mapM read
  | _ => none

theorem readItems?_eq (v : Json) (read : Json → Option α) :
    v.readItems? (fun item _ => read item) = readList? read v := by
  cases v with
  | array items =>
    have hmap := congrArg (List.mapM read) items.attach_map_subtype_val
    rw [List.mapM_map] at hmap
    have hitems : (Json.array items).items? =
        some (items.attach.map fun item => ⟨item.1, sizeOf_item_lt item.2⟩) := rfl
    rw [readItems?, hitems, Option.bind_some, List.mapM_map]
    exact hmap
  | _ => rfl

namespace Fields

variable (members) (name : String) (read : Json → Option α)

@[simp]
theorem required?_ofMembers : (ofMembers members).required? name (fun v _ => read v) =
    (members.lookup name).bind read := by
  rw [required?, ← lookup_ofMembers]
  cases (ofMembers members).values.lookup name <;> rfl

@[simp]
theorem optional?_ofMembers : (ofMembers members).optional? name (fun v _ => read v) =
    readOptional? read (members.lookup name) := by
  rw [optional?, ← lookup_ofMembers]
  cases (ofMembers members).values.lookup name <;> rfl

@[simp]
theorem getD?_ofMembers (missing : α) :
    (ofMembers members).getD? name missing (fun v _ => read v) =
      (members.lookup name).elim (some missing) read := by
  rw [getD?, ← lookup_ofMembers]
  cases (ofMembers members).values.lookup name <;> rfl

@[simp]
theorem list?_ofMembers : (ofMembers members).list? name (fun v _ => read v) =
    (members.lookup name).bind (readList? read) := by
  simp only [list?, readItems?_eq, required?_ofMembers]

@[simp]
theorem listD?_ofMembers : (ofMembers members).listD? name (fun v _ => read v) =
    (members.lookup name).elim (some []) (readList? read) := by
  simp only [listD?, readItems?_eq, getD?_ofMembers]

end Fields

/-! ## Plain values -/

@[simp]
theorem word?_toNat (n : UInt32) : word? (.nat n.toNat) = some n := by
  have hlt : n.toNat < 4294967296 := n.toNat_lt
  rw [word?, if_pos hlt, UInt32.ofNat_toNat]

@[simp]
theorem string?_string (value : String) : string? (.string value) = some value := rfl

@[simp]
theorem bool?_bool (value : Bool) : bool? (.bool value) = some value := rfl

@[simp]
theorem choice?_string (inside : Bool) (word : String) :
    choice? inside (.string word) = some word := rfl

end Json

namespace Tree

variable {α : Type} {names : List String} {members fields : List (String × Json)} {name : String}
  {write : α → Json} {read : Json → Option α}

/-! ## Records that are written -/

/-- The members are some of the fields of these names, in their order. -/
def Named (names : List String) (members : List (String × Json)) : Prop :=
  (members.map Prod.fst).Sublist names

namespace Named

theorem nil : Named [] [] := .slnil

theorem field {v : Json} (h : Named names members) :
    Named (name :: names) ((name, v) :: members) := h.cons_cons name

/-- A field that may be left out. -/
theorem optional (o : Option α) (h : Named names members) :
    Named (name :: names) (optionalField name write o ++ members) := by
  cases o with
  | none => exact h.cons name
  | some x => exact h.field

/-- A field at the end that may be left out. -/
theorem last (o : Option α) : Named [name] (optionalField name write o) := by
  have h : Named [name] (optionalField name write o ++ []) := optional o nil
  rwa [List.append_nil] at h

theorem nodup (h : Named names members) (hnames : names.Nodup) :
    (members.map Prod.fst).Nodup := hnames.sublist h

end Named

@[simp]
theorem lookup_member {β : Type} {v : β} {rest : List (String × β)} {key : String} :
    List.lookup key ((name, v) :: rest) = if key = name then some v else rest.lookup key := by
  rw [List.lookup_cons]
  by_cases h : key = name
  · rw [if_pos h, beq_iff_eq.2 h]
  · rw [if_neg h, beq_eq_false_iff_ne.2 h]

@[simp]
theorem lookup_optionalField {o : Option α} {key : String} :
    List.lookup key (optionalField name write o ++ members) =
      if key = name then (o.map write).or (members.lookup key) else members.lookup key := by
  cases o with
  | none => exact (ite_self _).symm
  | some x => exact lookup_member

@[simp]
theorem lookup_last {o : Option α} {key : String} :
    List.lookup key (optionalField name write o) = if key = name then o.map write else none := by
  cases o with
  | none => exact (ite_self _).symm
  | some x => exact lookup_member

/-! ### The frame of a record -/

@[simp]
theorem Extent.ofJson?_toJson (e : Extent) : Extent.ofJson? e.toJson = some e := by
  have hnames : ([("pos", Json.nat e.pos.toNat), ("end", .nat e.stop.toNat)].map Prod.fst).Nodup :=
    show ["pos", "end"].Nodup by decide
  rw [Extent.ofJson?, Extent.toJson, record?_object hnames]
  simp

@[simp]
theorem Fields.extent?_ofMembers (members : List (String × Json)) :
    (Fields.ofMembers members).extent? = (members.lookup "range").bind Extent.ofJson? :=
  Fields.required?_ofMembers members "range" Extent.ofJson?

/-- What the fields of a record of known form are read from. -/
theorem content?_record {extent : Extent} (names : List String) (h : Named names fields)
    (hnames : ("range" :: names).Nodup) :
    (Json.object (("range", extent.toJson) :: fields)).content? =
      some (.ofMembers _ (h.field.nodup hnames)) := rfl

/-- What the fields of a record with its kind are read from. -/
theorem content?_taggedRecord {kind : String} {extent : Extent} (names : List String)
    (h : Named names fields) (hnames : ("kind" :: "range" :: names).Nodup) :
    (Json.object (("kind", .string kind) :: ("range", extent.toJson) :: fields)).content? =
      some (.ofMembers _ (h.field.field.nodup hnames)) := rfl

/-- The fields of a record of known form. -/
theorem record?_record {extent : Extent} {asked : List String} (names : List String)
    (h : Named names fields) (hnames : ("range" :: names).Nodup) :
    (Json.object (("range", extent.toJson) :: fields)).record? asked =
      some (Fields.ofMembers (("range", extent.toJson) :: fields)) :=
  record?_object (h.field.nodup hnames) asked

/-- A record with its kind goes on to be read as the fields of that kind. -/
theorem bind_taggedRecord {β : Type} {kind : String} {extent : Extent} {inside : Bool}
    {kinds : List String} {f : Tagged (.object (("kind", .string kind) ::
      ("range", extent.toJson) :: fields)) → Option β} (names : List String)
    (h : Named names fields) (hnames : ("kind" :: "range" :: names).Nodup) :
    ((Json.object (("kind", .string kind) :: ("range", extent.toJson) :: fields)).tagged? inside
      kinds >>= f) = f ⟨kind, .ofMembers _ (h.field.field.nodup hnames)⟩ :=
  congrArg (· >>= f) (tagged?_object _ rfl inside kinds)

/-! ### Fields that are read back -/

/-- A field that may be left out is read back. -/
@[simp]
theorem readOptional?_map {o : Option α} (hnull : ∀ x, (write x).isNull = false)
    (h : ∀ x ∈ o, read (write x) = some x) : readOptional? read (o.map write) = some o := by
  cases o with
  | none => rfl
  | some x =>
    rw [Option.map_some, readOptional?, hnull, h x rfl]
    rfl

/-- A list is read back. -/
@[simp]
theorem readList?_map {xs : List α} (h : ∀ x ∈ xs, read (write x) = some x) :
    readList? read (.array (xs.map write)) = some xs := by
  rw [readList?]
  induction xs with
  | nil => rfl
  | cons x xs ih =>
    obtain ⟨hx, hxs⟩ := List.forall_mem_cons.1 h
    rw [List.map_cons, List.mapM_cons, hx, ih hxs]
    rfl

end Tree

end Lockstep
