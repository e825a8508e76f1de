import Lockstep.Proofs.TriviaRuns
import Lockstep.Source.Cursor

/-!
# Moves of the cursor

A cursor is known by its text and its offset (`Cursor.eq_of_offset_eq`), so a jump finds the cursor
of the same text with that offset and no other (`Cursor.at?_eq_some_iff`). `Cursor.Passes` says that
a cursor has gone on over a part of its text; steps that succeed are described by it.
-/

namespace Lockstep.Text

theorem byteLength_eq_zero {cs : List Char} : byteLength cs = 0 ↔ cs = [] := by
  cases cs with
  | nil => exact ⟨fun _ => rfl, fun _ => rfl⟩
  | cons c cs =>
    have := Char.utf8Size_pos c
    rw [byteLength_cons]
    exact ⟨fun h => by omega, nofun⟩

end Lockstep.Text

namespace Lockstep.Source.Cursor

open Text

variable {c d e : Cursor} {text text' : List Char}

/-- The cursor `d` is that of `c` after it has passed `text`. -/
structure Passes (c : Cursor) (text : List Char) (d : Cursor) : Prop where
  ahead : c.ahead = text ++ d.ahead
  passed : d.passed = text.reverse ++ c.passed

theorem ext (hp : c.passed = d.passed) (ha : c.ahead = d.ahead) : c = d := by
  obtain ⟨p, a, o, ho⟩ := c
  obtain ⟨p', a', o', ho'⟩ := d
  cases hp
  cases ha
  cases ho
  cases ho'
  rfl

theorem pass_add (c : Cursor) (n m : Nat) : (c.pass n).pass m = c.pass (n + m) := by
  apply ext
  · simp only [pass, List.take_add, List.reverse_append, List.append_assoc]
  · simp only [pass, List.drop_drop]

namespace Passes

theorem refl (c : Cursor) : c.Passes [] c := ⟨rfl, rfl⟩

theorem trans (h : c.Passes text d) (h' : d.Passes text' e) : c.Passes (text ++ text') e where
  ahead := by rw [h.ahead, h'.ahead, List.append_assoc]
  passed := by rw [h'.passed, h.passed, List.reverse_append, List.append_assoc]

theorem text_eq (h : c.Passes text d) : d.text = c.text := by
  simp only [Cursor.text, h.ahead, h.passed, List.reverse_append, List.reverse_reverse,
    List.append_assoc]

theorem offset (h : c.Passes text d) : d.offset = c.offset + byteLength text := by
  rw [d.offset_eq, c.offset_eq, h.passed, byteLength_append, byteLength_reverse, Nat.add_comm]

theorem length_eq (h : c.Passes text d) : d.length = c.length := by
  rw [length, length, h.offset, h.ahead, byteLength_append, Nat.add_assoc]

theorem eq_nil_iff (h : c.Passes text d) : text = [] ↔ d.offset = c.offset := by
  rw [h.offset, ← byteLength_eq_zero]
  omega

theorem eq_pass (h : c.Passes text d) : d = c.pass text.length := by
  apply ext
  · simp only [pass, h.passed, h.ahead, List.take_left]
  · simp only [pass, h.ahead, List.drop_left]

theorem eq_retreat (h : c.Passes text d) : c = d.retreat text.length := by
  have hlen : text.reverse.length = text.length := List.length_reverse
  apply ext
  · simp only [retreat, h.passed, ← hlen, List.drop_left]
  · simp only [retreat, h.passed, ← hlen, List.take_left, List.reverse_reverse, h.ahead]

theorem right_unique (h : c.Passes text d) (h' : c.Passes text e) : d = e :=
  h.eq_pass.trans h'.eq_pass.symm

end Passes

/-- Moving over so many characters passes them. -/
theorem passes_pass (c : Cursor) (n : Nat) : c.Passes (c.ahead.take n) (c.pass n) :=
  ⟨(List.take_append_drop n c.ahead).symm, rfl⟩

theorem passes_of_ahead_eq {rest : List Char} (h : c.ahead = text ++ rest) :
    c.Passes text (c.pass text.length) ∧ (c.pass text.length).ahead = rest := by
  have hrest : (c.pass text.length).ahead = rest := by
    simp only [pass, h, List.drop_left]
  refine ⟨⟨by rw [hrest, h], ?_⟩, hrest⟩
  simp only [pass, h, List.take_left]

theorem passes_of_text_eq (ht : c.text = d.text) (ha : c.ahead = text ++ d.ahead) :
    c.Passes text d := by
  refine ⟨ha, List.reverse_inj.1 ?_⟩
  have htext : c.passed.reverse ++ (text ++ d.ahead) = d.passed.reverse ++ d.ahead := by
    rw [← ha]
    exact ht
  rw [← List.append_assoc] at htext
  rw [List.reverse_append, List.reverse_reverse]
  exact (List.append_cancel_right htext).symm

/-- After the first part of what is passed, the rest is passed. -/
theorem Passes.drop (h : c.Passes (text ++ text') d) : (c.pass text.length).Passes text' d := by
  have hahead : c.ahead = text ++ (text' ++ d.ahead) := by rw [h.ahead, List.append_assoc]
  refine passes_of_text_eq ?_ (passes_of_ahead_eq hahead).2
  rw [text_pass, h.text_eq]

/-- Of two places behind a cursor, the one that is further on is behind the other. -/
theorem Passes.of_length_le (h : c.Passes text d) (h' : c.Passes text' e)
    (hle : text.length ≤ text'.length) : ∃ between, text' = text ++ between ∧ d.Passes between e := by
  have hpre : text <+: c.ahead := h.ahead ▸ List.prefix_append text _
  have hpre' : text' <+: c.ahead := h'.ahead ▸ List.prefix_append text' _
  obtain ⟨between, rfl⟩ := List.prefix_of_prefix_length_le hpre hpre' hle
  rw [h.eq_pass]
  exact ⟨between, rfl, h'.drop⟩

/-! ## Jumps -/

/-- Two cursors over one text lie one after the other. -/
theorem exists_passes (ht : c.text = d.text) (ho : c.offset ≤ d.offset) :
    ∃ t, c.Passes t d := by
  rcases List.append_eq_append_iff.1 ht with ⟨t, hp, ha⟩ | ⟨t, hp, ha⟩
  · refine ⟨t, ha, List.reverse_inj.1 ?_⟩
    rw [hp, List.reverse_append, List.reverse_reverse]
  · -- here `d` comes first, so that nothing lies between the two
    have hlen : byteLength t = 0 := by
      have hc := congrArg byteLength hp
      rw [byteLength_append, byteLength_reverse, byteLength_reverse, ← c.offset_eq,
        ← d.offset_eq] at hc
      omega
    obtain rfl := byteLength_eq_zero.1 hlen
    refine ⟨[], ha.symm, List.reverse_inj.1 ?_⟩
    rw [List.reverse_nil, List.nil_append, hp, List.append_nil]

/-- A text has one cursor for an offset. -/
theorem eq_of_offset_eq (ht : c.text = d.text) (ho : c.offset = d.offset) : c = d := by
  obtain ⟨t, h⟩ := exists_passes ht (Nat.le_of_eq ho)
  have hlen : byteLength t = 0 := by
    have := h.offset
    omega
  obtain rfl := byteLength_eq_zero.1 hlen
  exact (Passes.refl c).right_unique h

theorem at?_of_text_eq (ht : d.text = c.text) : c.at? d.offset = some d := by
  unfold at?
  split
  · next hle =>
    obtain ⟨t, h⟩ := exists_passes ht.symm hle
    have hn : d.offset - c.offset = byteLength t := by
      have := h.offset
      omega
    rw [hn, h.ahead, charsIn?_byteLength, Option.map_some, ← h.eq_pass]
  · next hlt =>
    obtain ⟨t, h⟩ := exists_passes ht (by omega)
    have hn : c.offset - d.offset = byteLength t.reverse := by
      have := h.offset
      rw [byteLength_reverse]
      omega
    rw [hn, h.passed, charsIn?_byteLength, Option.map_some, List.length_reverse, ← h.eq_retreat]

/-- A jump goes to the place of the text with that offset. -/
theorem at?_eq_some_iff {pos : Nat} : c.at? pos = some d ↔ d.text = c.text ∧ d.offset = pos := by
  constructor
  · intro h
    unfold at? at h
    split at h
    · obtain ⟨n, hn, rfl⟩ := Option.map_eq_some_iff.1 h
      refine ⟨text_pass c n, ?_⟩
      rw [(c.passes_pass n).offset, (charsIn?_eq_some hn).2]
      omega
    · obtain ⟨n, hn, rfl⟩ := Option.map_eq_some_iff.1 h
      refine ⟨text_retreat c n, ?_⟩
      change c.offset - byteLength (c.passed.take n) = pos
      rw [(charsIn?_eq_some hn).2]
      omega
  · rintro ⟨ht, rfl⟩
    exact at?_of_text_eq ht

/-- The part of the text between two of its places. -/
theorem slice?_of_passes {x : Extent} (ht : d.text = c.text) (h : d.Passes text e)
    (hstart : d.offset = x.start) (hstop : e.offset = x.stop.toNat) :
    c.slice? x = some (String.ofList text) := by
  have hlen := h.offset
  have hle : x.pos ≤ x.stop := by
    rw [UInt32.le_iff_toNat_le]
    change x.start ≤ x.stop.toNat
    omega
  have hn : x.length = byteLength text := by
    have := Extent.start_add_length hle
    omega
  have hd : c.at? x.start = some d := at?_eq_some_iff.2 ⟨ht, hstart⟩
  simp only [slice?, if_pos hle, hd, Option.bind_eq_bind, Option.bind_some, hn, h.ahead,
    charsIn?_byteLength, List.take_left]

end Lockstep.Source.Cursor
