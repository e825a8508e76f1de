import Lockstep.Config.OrderedMap

/-!
# Laws of maps in the order of insertion

A map is determined by the order of its names and by what is found at each of them
(`OrderedMap.ext_get?`), so a law about maps is a law about names and one about lookups. Putting a
map on top of another keeps the places of the names below and takes the values above.

- `OrderedMap.get?_extend`, `OrderedMap.names_extend`: a map on top of another.
- `OrderedMap.extend_assoc`, `OrderedMap.empty_extend`: maps on top of each other form a monoid.
-/

namespace Lockstep.Config.OrderedMap

variable {α : Type}

/-- The names in a map, in the order of their insertion. -/
def names (m : OrderedMap α) : List String := m.entries.map (·.1)

/-- Write entries, in their order. -/
def putAll (m : OrderedMap α) (entries : List (String × α)) : OrderedMap α :=
  entries.foldl (fun m entry => m.put entry.1 entry.2) m

@[simp] theorem putAll_nil (m : OrderedMap α) : m.putAll [] = m := rfl

@[simp] theorem putAll_cons (m : OrderedMap α) (entry : String × α)
    (entries : List (String × α)) :
    m.putAll (entry :: entries) = (m.put entry.1 entry.2).putAll entries := rfl

/-! ## Finding an entry -/

private theorem lookup_cons_eq (name key : String) (value : α) (entries : List (String × α)) :
    ((name, value) :: entries).lookup key =
      if key = name then some value else entries.lookup key := by
  rw [List.lookup_cons]
  by_cases h : key = name
  · rw [h, beq_self_eq_true, if_pos rfl]
  · rw [beq_false_of_ne h, if_neg h]

private theorem lookup_eq_none {entries : List (String × α)} {key : String} :
    entries.lookup key = none ↔ key ∉ entries.map (·.1) := by
  induction entries with
  | nil => simp
  | cons entry rest ih =>
    obtain ⟨name, value⟩ := entry
    by_cases h : key = name <;> simp [lookup_cons_eq, h, ih]

@[simp] theorem get?_empty (name : String) : (∅ : OrderedMap α).get? name = none := rfl

@[simp] theorem names_empty : (∅ : OrderedMap α).names = [] := rfl

/-! ## What determines a map -/

theorem eq_of_entries {m other : OrderedMap α} (h : m.entries = other.entries) : m = other := by
  cases m
  cases other
  cases h
  rfl

/-- Without repetitions a list of entries is determined by its names and its lookups. -/
private theorem entries_eq {xs ys : List (String × α)} (hxs : (xs.map (·.1)).Nodup)
    (hnames : xs.map (·.1) = ys.map (·.1)) (hget : ∀ name, xs.lookup name = ys.lookup name) :
    xs = ys := by
  induction xs generalizing ys with
  | nil => exact (List.map_eq_nil_iff.1 hnames.symm).symm
  | cons entry xs ih =>
    obtain ⟨name, value⟩ := entry
    cases ys with
    | nil => cases hnames
    | cons entry' ys =>
      obtain ⟨name', value'⟩ := entry'
      obtain ⟨rfl, hrest⟩ := List.cons.inj hnames
      obtain ⟨hnew, hnodup⟩ := List.nodup_cons.1 hxs
      have hvalue : value = value' := by
        have := hget name
        simpa only [List.lookup_cons_self, Option.some.injEq] using this
      have htail : ∀ key, xs.lookup key = ys.lookup key := by
        intro key
        by_cases hkey : key = name
        · rw [hkey, lookup_eq_none.2 hnew, lookup_eq_none.2 (hrest ▸ hnew)]
        · simpa only [lookup_cons_eq, if_neg hkey] using hget key
      rw [hvalue, ih hnodup hrest htail]

/-- A map is determined by the order of its names and by what is found at them. -/
theorem ext_get? {m other : OrderedMap α} (hnames : m.names = other.names)
    (hget : ∀ name, m.get? name = other.get? name) : m = other :=
  eq_of_entries (entries_eq m.nodup hnames hget)

/-! ## Writing -/

theorem names_put (m : OrderedMap α) (name : String) (value : α) :
    (m.put name value).names = if name ∈ m.names then m.names else m.names ++ [name] :=
  names_putEntry name value m.entries

theorem get?_put (m : OrderedMap α) (name key : String) (value : α) :
    (m.put name value).get? key = if key = name then some value else m.get? key := by
  obtain ⟨entries, nodup⟩ := m
  change (putEntry name value entries).lookup key = if key = name then _ else entries.lookup key
  clear nodup
  induction entries with
  | nil => exact lookup_cons_eq name key value []
  | cons entry rest ih =>
    obtain ⟨n, v⟩ := entry
    by_cases hn : n = name
    · by_cases h : key = name <;> simp [putEntry, lookup_cons_eq, hn, h]
    · by_cases h : key = n
      · simp [putEntry, hn, h]
      · simp [putEntry, lookup_cons_eq, hn, h, ih]

/-- What has been written last is found. -/
theorem get?_putAll (m : OrderedMap α) {entries : List (String × α)}
    (h : (entries.map (·.1)).Nodup) (key : String) :
    (m.putAll entries).get? key = (entries.lookup key <|> m.get? key) := by
  induction entries generalizing m with
  | nil => rfl
  | cons entry rest ih =>
    obtain ⟨name, value⟩ := entry
    obtain ⟨hnew, hnodup⟩ := List.nodup_cons.1 h
    rw [putAll_cons, ih _ hnodup, get?_put, lookup_cons_eq]
    by_cases hkey : key = name
    · -- the name does not come again, so what has been written here stays
      rw [if_pos hkey, if_pos hkey, lookup_eq_none.2 (hkey ▸ hnew)]
      rfl
    · rw [if_neg hkey, if_neg hkey]

theorem names_putAll (m : OrderedMap α) {entries : List (String × α)}
    (h : (entries.map (·.1)).Nodup) :
    (m.putAll entries).names =
      m.names ++ (entries.map (·.1)).filter fun name => !m.names.contains name := by
  induction entries generalizing m with
  | nil => simp
  | cons entry rest ih =>
    obtain ⟨name, value⟩ := entry
    obtain ⟨hnew, hnodup⟩ := List.nodup_cons.1 h
    rw [putAll_cons, ih _ hnodup, names_put, List.map_cons, List.filter_cons]
    by_cases hname : name ∈ m.names
    · simp [hname]
    · -- the new name is at the end now, and it does not come again
      have hrest : ((rest.map (·.1)).filter fun n => !(m.names ++ [name]).contains n) =
          (rest.map (·.1)).filter fun n => !m.names.contains n := by
        refine List.filter_congr fun n hn => ?_
        have hne : n ≠ name := fun heq => hnew (heq ▸ hn)
        simp [hne]
      rw [if_neg hname, hrest]
      simp [hname]

/-! ## A map on top of another -/

theorem get?_extend (m other : OrderedMap α) (name : String) :
    (m.extend other).get? name = (other.get? name <|> m.get? name) :=
  m.get?_putAll other.nodup name

theorem names_extend (m other : OrderedMap α) :
    (m.extend other).names = m.names ++ other.names.filter fun name => !m.names.contains name :=
  m.names_putAll other.nodup

theorem extend_assoc (a b c : OrderedMap α) :
    (a.extend b).extend c = a.extend (b.extend c) := by
  refine ext_get? ?_ fun name => ?_
  · simp only [names_extend, List.filter_append, List.append_assoc, List.filter_filter]
    congr 2
    refine List.filter_congr fun name _ => ?_
    cases ha : a.names.contains name <;> cases hb : b.names.contains name <;>
      simp_all [List.mem_filter]
  · simp only [get?_extend]
    cases c.get? name <;> rfl

@[simp] theorem extend_empty (m : OrderedMap α) : m.extend ∅ = m := rfl

@[simp] theorem empty_extend (m : OrderedMap α) : OrderedMap.extend ∅ m = m := by
  refine ext_get? ?_ fun name => ?_
  · simp [names_extend]
  · rw [get?_extend]
    cases m.get? name <;> rfl

end Lockstep.Config.OrderedMap
