import Lockstep.Text.Extent

/-!
# Lines and columns

A line ends after each line feed; a carriage return is a character like any other. Lines and
columns count from zero, columns in bytes, and offsets past the end count on from the last line.

- `search`: where a value belongs in an ascending table, found by halving the table.
- `LineIndex`: the table of the offsets at which the lines of a text start.
- `LineIndex.position`: line and column of an offset.
-/

namespace Lockstep.Text

/-- A place in a text, by line and column. -/
structure Position where
  line : Nat
  column : Nat
  deriving DecidableEq, Repr

/-- A line or a column as editors count them, from one, in 32 bits. -/
def countedFromOne (n : Nat) : Nat := (n + 1) % offsetCount

/-- Line and column as editors count them. -/
def Position.oneBased (p : Position) : String :=
  s!"{countedFromOne p.line}:{countedFromOne p.column}"

/-! ## Searching a table -/

/-- Where a value belongs in an ascending table. -/
inductive Slot where
  /-- The value stands at the index. -/
  | found (index : Nat)
  /-- The value is not in the table, and would go in at the index. -/
  | missing (index : Nat)
  deriving DecidableEq, Repr

/-- Look for a value among the entries from `low` up to `high`. -/
def searchBetween (table : Array Nat) (value low high : Nat) (hhigh : high ≤ table.size) : Slot :=
  if hlow : low < high then
    let middle := low + (high - low) / 2
    have hmiddle : middle < high := by omega
    if table[middle] = value then .found middle
    else if table[middle] < value then searchBetween table value (middle + 1) high hhigh
    else searchBetween table value low middle (by omega)
  else .missing low
  termination_by high - low

/-- Look for a value in an ascending table. -/
def search (table : Array Nat) (value : Nat) : Slot :=
  searchBetween table value 0 table.size (Nat.le_refl _)

/-- The slot is the one where the value belongs. -/
def Slot.Fits (table : Array Nat) (value : Nat) : Slot → Prop
  | .found i => table[i]? = some value
  | .missing i =>
    i ≤ table.size ∧
      ∀ j (hj : j < table.size), (j < i → table[j] < value) ∧ (i ≤ j → value < table[j])

theorem getElem_lt_getElem {table : Array Nat} (htable : table.toList.Pairwise (· < ·))
    {i j : Nat} (hj : j < table.size) (hij : i < j) : table[i] < table[j] := by
  simpa using List.pairwise_iff_getElem.1 htable i j (Nat.lt_trans hij hj) hj hij

/-- What carries the search: the entries before `low` are less than the value, and those from `high`
on are greater. -/
theorem searchBetween_fits {table : Array Nat} {value low high : Nat} (hhigh : high ≤ table.size)
    (htable : table.toList.Pairwise (· < ·)) (hle : low ≤ high)
    (hbelow : ∀ j (hj : j < table.size), j < low → table[j] < value)
    (habove : ∀ j (hj : j < table.size), high ≤ j → value < table[j]) :
    (searchBetween table value low high hhigh).Fits table value := by
  fun_induction searchBetween table value low high hhigh with
  | case1 low high hhigh hlow middle hmiddle heq =>
    exact Array.getElem?_eq_some_iff.2 ⟨by omega, heq⟩
  | case2 low high hhigh hlow middle hmiddle hne hless ih =>
    refine ih hmiddle (fun j hj hjm => ?_) habove
    rcases Nat.lt_or_eq_of_le (Nat.le_of_lt_succ hjm) with h | rfl
    · exact Nat.lt_trans (getElem_lt_getElem htable (by omega) h) hless
    · exact hless
  | case3 low high hhigh hlow middle hmiddle hne hless ih =>
    have hgreater : value < table[middle] := by omega
    refine ih (by omega) hbelow (fun j hj hmj => ?_)
    rcases Nat.lt_or_eq_of_le hmj with h | rfl
    · exact Nat.lt_trans hgreater (getElem_lt_getElem htable hj h)
    · exact hgreater
  | case4 low high hhigh hlow =>
    obtain rfl : low = high := by omega
    exact ⟨hhigh, fun j hj => ⟨hbelow j hj, habove j hj⟩⟩

theorem search_fits {table : Array Nat} (htable : table.toList.Pairwise (· < ·)) (value : Nat) :
    (search table value).Fits table value :=
  searchBetween_fits _ htable (Nat.zero_le _) (fun _ _ h => absurd h (Nat.not_lt_zero _))
    fun _ hj h => absurd hj (Nat.not_lt.2 h)

/-! ## The starts of lines -/

/-- The byte that ends a line. -/
def lineFeed : UInt8 := 10

/-- The offsets just after each line feed, for bytes that begin at `offset`. -/
def lineBreaksFrom (offset : Nat) : List UInt8 → List Nat
  | [] => []
  | byte :: rest =>
    if byte == lineFeed then (offset + 1) :: lineBreaksFrom (offset + 1) rest
    else lineBreaksFrom (offset + 1) rest

theorem lt_of_mem_lineBreaksFrom {offset pos : Nat} {bytes : List UInt8}
    (h : pos ∈ lineBreaksFrom offset bytes) : offset < pos := by
  induction bytes generalizing offset with
  | nil => cases h
  | cons byte rest ih =>
    simp only [lineBreaksFrom] at h
    split at h
    · obtain rfl | h := List.mem_cons.1 h
      · exact Nat.lt_succ_self offset
      · exact Nat.lt_of_succ_lt (ih h)
    · exact Nat.lt_of_succ_lt (ih h)

theorem lineBreaksFrom_ascending (offset : Nat) (bytes : List UInt8) :
    (lineBreaksFrom offset bytes).Pairwise (· < ·) := by
  induction bytes generalizing offset with
  | nil => exact .nil
  | cons byte rest ih =>
    simp only [lineBreaksFrom]
    split
    · exact .cons (fun _ => lt_of_mem_lineBreaksFrom) (ih _)
    · exact ih _

/-- Where the lines of a text start. -/
structure LineIndex where
  /-- The offset at which each line starts. -/
  starts : Array Nat
  first : starts[0]? = some 0
  ascending : starts.toList.Pairwise (· < ·)
  deriving DecidableEq, Repr

namespace LineIndex

/-- The lines of a text start at its beginning and after each line feed. -/
def ofText (text : String) : LineIndex where
  starts := (0 :: lineBreaksFrom 0 text.toUTF8.data.toList).toArray
  first := rfl
  ascending := .cons (fun _ => lt_of_mem_lineBreaksFrom) (lineBreaksFrom_ascending _ _)

/-- The line that holds `pos`: the one that starts there, or else the one before the place of a
start there. -/
def line (index : LineIndex) (pos : Nat) : Nat :=
  match search index.starts pos with
  | .found i => i
  | .missing i => i - 1

/-- A line that starts at the beginning is before every place. -/
theorem search_ne_missing_zero (index : LineIndex) (pos : Nat) :
    search index.starts pos ≠ .missing 0 := by
  intro h
  have hfits := search_fits index.ascending pos
  rw [h] at hfits
  obtain ⟨hsize, hfirst⟩ := Array.getElem?_eq_some_iff.1 index.first
  have := (hfits.2 0 hsize).2 (Nat.le_refl 0)
  omega

/-- The line is the last one that starts at or before the offset. -/
theorem line_spec (index : LineIndex) (pos : Nat) :
    ∃ h : index.line pos < index.starts.size, index.starts[index.line pos] ≤ pos ∧
      ∀ j (hj : j < index.starts.size), index.line pos < j → pos < index.starts[j] := by
  have hfits := search_fits index.ascending pos
  unfold line
  split
  · next i h =>
    rw [h] at hfits
    obtain ⟨hi, rfl⟩ := Array.getElem?_eq_some_iff.1 hfits
    exact ⟨hi, Nat.le_refl _, fun j hj hij => getElem_lt_getElem index.ascending hj hij⟩
  · next i h =>
    rw [h] at hfits
    obtain ⟨hi, hsides⟩ := hfits
    have hpos : i ≠ 0 := fun h0 => index.search_ne_missing_zero pos (h0 ▸ h)
    have hbelow := (hsides (i - 1) (by omega)).1 (by omega)
    exact ⟨by omega, Nat.le_of_lt hbelow, fun j hj hij => (hsides j hj).2 (by omega)⟩

theorem line_lt_size (index : LineIndex) (pos : Nat) : index.line pos < index.starts.size :=
  (index.line_spec pos).1

/-- Where the line that holds `pos` starts. -/
def lineStart (index : LineIndex) (pos : Nat) : Nat :=
  have := index.line_lt_size pos
  index.starts[index.line pos]

theorem lineStart_le (index : LineIndex) (pos : Nat) : index.lineStart pos ≤ pos :=
  (index.line_spec pos).2.1

/-- Line and column of `pos`. -/
def position (index : LineIndex) (pos : Nat) : Position :=
  ⟨index.line pos, pos - index.lineStart pos⟩

end LineIndex

end Lockstep.Text
