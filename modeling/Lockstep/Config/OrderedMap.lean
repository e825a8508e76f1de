/-!
# Maps in the order of insertion

A map from names to values that remembers in which order the names came. Writing to a name that is
there already keeps its place.
-/

namespace Lockstep.Config

/-- A map that keeps the order of insertion. -/
structure OrderedMap (α : Type) where
  entries : List (String × α)
  /-- No name comes twice. -/
  nodup : (entries.map (·.1)).Nodup

namespace OrderedMap

variable {α : Type}

def empty : OrderedMap α := ⟨[], by simp⟩

instance : EmptyCollection (OrderedMap α) := ⟨empty⟩

instance : Inhabited (OrderedMap α) := ⟨empty⟩

/-- Write to a name of a list of entries. -/
def putEntry (name : String) (value : α) : List (String × α) → List (String × α)
  | [] => [(name, value)]
  | (n, v) :: rest =>
    if n = name then (name, value) :: rest else (n, v) :: putEntry name value rest

/-- The names after a write: those before it, and the name written to at the end if it is new. -/
theorem names_putEntry (name : String) (value : α) (entries : List (String × α)) :
    (putEntry name value entries).map (·.1) =
      if name ∈ entries.map (·.1) then entries.map (·.1) else entries.map (·.1) ++ [name] := by
  induction entries with
  | nil => simp [putEntry]
  | cons entry rest ih =>
    obtain ⟨n, v⟩ := entry
    by_cases h : n = name
    · simp [putEntry, h]
    · have h' : ¬ name = n := fun e => h e.symm
      by_cases hm : name ∈ rest.map (·.1) <;> simp_all [putEntry]

/-- Write to a name. -/
def put (m : OrderedMap α) (name : String) (value : α) : OrderedMap α where
  entries := putEntry name value m.entries
  nodup := by
    have h := m.nodup
    rw [names_putEntry]
    split
    · exact h
    · rename_i hn
      refine List.nodup_append.2 ⟨h, by simp, ?_⟩
      intro a ha b hb
      rw [List.mem_singleton.1 hb]
      rintro rfl
      exact hn ha

/-- The value at a name. -/
def get? (m : OrderedMap α) (name : String) : Option α := m.entries.lookup name

def contains (m : OrderedMap α) (name : String) : Bool := (m.get? name).isSome

/-- Write all entries of another map, in their order. -/
def extend (m other : OrderedMap α) : OrderedMap α :=
  other.entries.foldl (fun m entry => m.put entry.1 entry.2) m

/-- The map of a list of entries. -/
def ofList (entries : List (String × α)) : OrderedMap α :=
  entries.foldl (fun m entry => m.put entry.1 entry.2) empty

end OrderedMap

end Lockstep.Config
