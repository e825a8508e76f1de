import Mathlib.Data.List.Basic
import Lockstep.Text.Line

/-!
# Lines and columns, counted by line feeds

The table of line starts is cut in two by an offset: the starts at or before it, which are the
beginning and the places after the line feeds below it, and the starts after it. A search that
finds the cut gives the number of those line feeds and the last of those places.

- `feedsBelow`, `afterFeeds`: the line feeds below an offset, and the place after the last of them.
- `LineIndex.line_of_cut`: what the search gives for a cut of the table.
- `LineIndex.position_exact`: lines and columns by line feeds, in the order of the offsets.
-/

namespace Lockstep.Text

/-- The offsets below `pos` of the line feeds of a text. -/
def feedsBelow (text : String) (pos : Nat) : List Nat :=
  (text.toUTF8.data.toList.take pos).idxsOf lineFeed

/-- The offset just after the last line feed below `pos`, or that of the beginning. -/
def afterFeeds (text : String) (pos : Nat) : Nat :=
  ((feedsBelow text pos).getLast?.map (· + 1)).getD 0

theorem lineBreaksFrom_eq (offset : Nat) (bytes : List UInt8) :
    lineBreaksFrom offset bytes = (bytes.idxsOf lineFeed offset).map (· + 1) := by
  induction bytes generalizing offset with
  | nil => rfl
  | cons byte rest ih =>
    rw [lineBreaksFrom, List.idxsOf_cons]
    split
    · rw [ih, List.map_cons]
    · exact ih _

/-- An earlier line, or an earlier column of the same line. -/
instance : LT Position where
  lt p q := p.line < q.line ∨ p.line = q.line ∧ p.column < q.column

theorem Position.lt_iff {p q : Position} :
    p < q ↔ p.line < q.line ∨ p.line = q.line ∧ p.column < q.column := Iff.rfl

namespace LineIndex

variable {index : LineIndex} {pos : Nat}

/-! ## Cuts of the table -/

/-- If the table is cut between the starts up to an offset and those after it, the line is the last
one before the cut. -/
theorem line_of_cut {before after : List Nat} (h : index.starts.toList = before ++ after)
    (hbefore : ∀ start ∈ before, start ≤ pos) (hafter : ∀ start ∈ after, pos < start) :
    index.line pos + 1 = before.length ∧ before.getLast? = some (index.lineStart pos) := by
  obtain ⟨hline, hle, hnext⟩ := index.line_spec pos
  have hsize : index.starts.size = before.length + after.length := by
    rw [← Array.length_toList, h, List.length_append]
  have hget : ∀ i (hi : i < index.starts.size), (before ++ after)[i]? = some index.starts[i] := by
    intro i hi
    rw [← h, Array.getElem?_toList, Array.getElem?_eq_getElem hi]
  have hlt : index.line pos < before.length := by
    refine Nat.lt_of_not_le fun hge => ?_
    have hget := hget _ hline
    rw [List.getElem?_append_right hge] at hget
    exact Nat.not_lt.2 hle (hafter _ (List.mem_of_getElem? hget))
  have hlast : index.line pos + 1 = before.length := by
    refine Nat.le_antisymm hlt (Nat.le_of_not_lt fun hmore => ?_)
    have hget := hget (index.line pos + 1) (by omega)
    rw [List.getElem?_append_left hmore] at hget
    exact Nat.not_le.2 (hnext _ _ (Nat.lt_succ_self _)) (hbefore _ (List.mem_of_getElem? hget))
  refine ⟨hlast, ?_⟩
  rw [List.getLast?_eq_getElem?, ← hlast, Nat.add_sub_cancel, ← List.getElem?_append_left hlt]
  exact hget _ hline

/-! ## The table of a text -/

theorem lt_of_mem_feedsBelow {text : String} {feed : Nat} (h : feed ∈ feedsBelow text pos) :
    feed < pos := by
  have hlt := List.lt_add_of_mem_idxsOf _ h
  exact Nat.lt_of_lt_of_le hlt (List.length_take_le _ _)

/-- An offset cuts the table of a text behind the line feeds that are below it. -/
theorem starts_ofText (text : String) (pos : Nat) :
    ∃ after : List Nat, (ofText text).starts.toList =
        (0 :: (feedsBelow text pos).map (· + 1)) ++ after ∧ ∀ start ∈ after, pos < start := by
  let bytes := text.toUTF8.data.toList
  refine ⟨((bytes.drop pos).idxsOf lineFeed (bytes.take pos).length).map (· + 1), ?_, ?_⟩
  · change 0 :: lineBreaksFrom 0 bytes = _
    rw [lineBreaksFrom_eq, ← List.take_append_drop pos bytes, List.idxsOf_append, List.map_append,
      Nat.zero_add, List.take_append_drop]
    rfl
  · intro start hstart
    obtain ⟨feed, hfeed, rfl⟩ := List.mem_map.1 hstart
    have hge := List.ge_of_mem_idxsOf _ hfeed
    have hmore : pos < bytes.length := by
      refine Nat.lt_of_not_le fun hend => ?_
      rw [List.drop_eq_nil_of_le hend] at hfeed
      cases hfeed
    rw [List.length_take_of_le (Nat.le_of_lt hmore)] at hge
    exact Nat.lt_succ_of_le hge

theorem line_ofText (text : String) (pos : Nat) :
    (ofText text).line pos = (feedsBelow text pos).length ∧
      (ofText text).lineStart pos = afterFeeds text pos := by
  obtain ⟨after, hcut, hafter⟩ := starts_ofText text pos
  have hbefore : ∀ start ∈ 0 :: (feedsBelow text pos).map (· + 1), start ≤ pos := by
    refine List.forall_mem_cons.2 ⟨Nat.zero_le pos, List.forall_mem_map.2 fun feed hfeed => ?_⟩
    exact lt_of_mem_feedsBelow hfeed
  obtain ⟨hline, hstart⟩ := line_of_cut hcut hbefore hafter
  rw [List.length_cons, List.length_map] at hline
  refine ⟨Nat.succ.inj hline, ?_⟩
  rw [List.getLast?_cons, List.getLast?_map] at hstart
  exact (Option.some.inj hstart).symm

/-! ## 32-bit numbers -/

theorem le_of_mem_starts {text : String} {start : Nat} (h : start ∈ (ofText text).starts) :
    start ≤ text.utf8ByteSize := by
  have hmem : start ∈ 0 :: lineBreaksFrom 0 text.toUTF8.data.toList := by simpa [ofText] using h
  rw [lineBreaksFrom_eq] at hmem
  obtain rfl | hmem := List.mem_cons.1 hmem
  · exact Nat.zero_le _
  · obtain ⟨feed, hfeed, rfl⟩ := List.mem_map.1 hmem
    exact List.lt_add_of_mem_idxsOf _ hfeed

theorem line_le (text : String) (pos : Nat) : (ofText text).line pos ≤ text.utf8ByteSize := by
  rw [(line_ofText text pos).1, feedsBelow, List.length_idxsOf]
  exact Nat.le_trans List.count_le_length (List.length_take_le' _ _)

/-! ## The order of places -/

theorem line_mono (index : LineIndex) {p q : Nat} (h : p ≤ q) : index.line p ≤ index.line q := by
  refine Nat.le_of_not_lt fun hlt => ?_
  obtain ⟨hline, hle, -⟩ := index.line_spec p
  obtain ⟨-, -, hnext⟩ := index.line_spec q
  have := hnext _ hline hlt
  omega

theorem lineStart_eq (index : LineIndex) {p q : Nat} (h : index.line p = index.line q) :
    index.lineStart p = index.lineStart q := by
  simp only [lineStart, h]

theorem position_lt (index : LineIndex) {p q : Nat} (h : p < q) :
    index.position p < index.position q := by
  obtain hline | hline := Nat.lt_or_eq_of_le (index.line_mono (Nat.le_of_lt h))
  · exact .inl hline
  · refine .inr ⟨hline, ?_⟩
    change p - index.lineStart p < q - index.lineStart q
    have hle := index.lineStart_le p
    rw [← index.lineStart_eq hline]
    omega

/-- Places are in the order of their offsets, and different offsets have different places. -/
theorem position_lt_iff (index : LineIndex) {p q : Nat} :
    index.position p < index.position q ↔ p < q := by
  refine ⟨fun h => ?_, index.position_lt⟩
  rw [Position.lt_iff] at h
  obtain hlt | rfl | hgt := Nat.lt_trichotomy p q
  · exact hlt
  · omega
  · have := Position.lt_iff.1 (index.position_lt hgt)
    omega

theorem position_inj (index : LineIndex) {p q : Nat} :
    index.position p = index.position q ↔ p = q := by
  refine ⟨fun h => ?_, fun h => h ▸ rfl⟩
  have hp := index.position_lt_iff (p := p) (q := q)
  have hq := index.position_lt_iff (p := q) (q := p)
  rw [h, Position.lt_iff] at hp hq
  omega

/-! ## Lines and columns -/

/-- In a text of the size that offsets can count, also for an offset past its end: the line is the
number of line feeds below the offset, and the column is the distance from the last of them. No
lookup leaves the table or goes below zero, and all numbers have 32 bits. Places are in the order
of their offsets. -/
theorem position_exact (text : String) (hsize : text.utf8ByteSize < offsetCount) (pos : UInt32) :
    ((ofText text).line pos.toNat = (feedsBelow text pos.toNat).length ∧
      (ofText text).position pos.toNat =
        ⟨(feedsBelow text pos.toNat).length, pos.toNat - afterFeeds text pos.toNat⟩) ∧
    (search (ofText text).starts pos.toNat ≠ .missing 0 ∧
      (ofText text).starts[(ofText text).line pos.toNat]? = some (afterFeeds text pos.toNat) ∧
      afterFeeds text pos.toNat ≤ pos.toNat) ∧
    ((∀ start ∈ (ofText text).starts, start < offsetCount) ∧
      (ofText text).line pos.toNat < offsetCount) ∧
    ∀ other : UInt32,
      ((ofText text).position pos.toNat = (ofText text).position other.toNat ↔ pos = other) ∧
      ((ofText text).position pos.toNat < (ofText text).position other.toNat ↔ pos < other) := by
  obtain ⟨hline, hstart⟩ := line_ofText text pos.toNat
  refine ⟨⟨hline, ?_⟩, ⟨search_ne_missing_zero _ _, ?_, ?_⟩, ⟨fun start hmem => ?_, ?_⟩,
    fun other => ⟨?_, ?_⟩⟩
  · rw [position, hline, hstart]
  · rw [← hstart]
    exact Array.getElem?_eq_getElem _
  · rw [← hstart]
    exact lineStart_le _ _
  · exact Nat.lt_of_le_of_lt (le_of_mem_starts hmem) hsize
  · exact Nat.lt_of_le_of_lt (line_le text _) hsize
  · rw [position_inj, UInt32.toNat_inj]
  · rw [position_lt_iff, UInt32.lt_iff_toNat_lt]

/-- Two bytes make up the first character, the third line is empty, and the last offset lies past
the end of the text. -/
theorem position_exact_past_end :
    "é\nb\n".utf8ByteSize < offsetCount ∧
      (ofText "é\nb\n").position (9 : UInt32).toNat = ⟨2, 4⟩ := by
  refine ⟨by decide +kernel, ?_⟩
  rw [(position_exact "é\nb\n" (by decide +kernel) 9).1.2]
  decide +kernel

end LineIndex

end Lockstep.Text
