import Lockstep.Proofs.InStep

/-!
# Passing an extent

What is passed for an extent is the text that it covers, so it is always found there. A place that
the source does not have is refused, and nothing else is: for an extent that covers no part of the
source nothing is passed, and what lies before an extent is jumped over, whatever it is.

- `Extent.IsPartOf`, `Cursor.slice?_eq_some_iff`: the part of a text that an extent covers.
- `Cursor.StepsOver`: what passing an extent ought to come to.
- `replaceExtent_eq_write`, `replaceExtent_eq_error`: what it does.
- `replaceExtent_steps`: when the two are the same.
-/

namespace Lockstep

open Render Source Target Text

/-- The extent covers a part of the text: its ends are character boundaries, in this order. -/
def Text.Extent.IsPartOf (x : Extent) (source : List Char) : Prop :=
  ∃ before covered behind, source = before ++ (covered ++ behind) ∧
    byteLength before = x.start ∧ byteLength (before ++ covered) = x.stop.toNat

namespace Source

theorem Trivia.Runs.next_ne_absent {text rest : List Char} (h : Runs text rest)
    (hne : text ≠ []) : next (text ++ rest) ≠ .absent := by
  cases h with
  | nil => exact absurd rfl hne
  | cons hrun _ =>
    rw [List.append_assoc, hrun]
    exact nofun

namespace Cursor

variable {c d : Cursor} {x : Extent}

/-! ## Parts of a text -/

theorem slice?_eq_some_iff {text : String} : c.slice? x = some text ↔
    ∃ d e : Cursor, d.text = c.text ∧ d.offset = x.start ∧ d.Passes text.toList e ∧
      e.offset = x.stop.toNat := by
  constructor
  · intro h
    unfold slice? at h
    split at h
    · next hle =>
      simp only [Option.bind_eq_bind, Option.bind_eq_some_iff, Option.some.injEq] at h
      obtain ⟨d, hd, n, hn, rfl⟩ := h
      obtain ⟨htext, hstart⟩ := at?_eq_some_iff.1 hd
      have hpass := d.passes_pass n
      refine ⟨d, d.pass n, htext, hstart, by rwa [String.toList_ofList], ?_⟩
      rw [hpass.offset, (charsIn?_eq_some hn).2, hstart, Extent.start_add_length hle]
    · cases h
  · rintro ⟨d, e, htext, hstart, hpass, hstop⟩
    rw [slice?_of_passes htext hpass hstart hstop, String.ofList_toList]

/-- A text has a slice for the extents that cover a part of it. -/
theorem isPartOf_iff : x.IsPartOf c.text ↔ ∃ text, c.slice? x = some text := by
  constructor
  · rintro ⟨before, covered, behind, hsource, hstart, hstop⟩
    let d : Cursor := ⟨before.reverse, covered ++ behind, _, rfl⟩
    refine ⟨String.ofList covered, slice?_eq_some_iff.2 ⟨d, d.pass covered.length, ?_, ?_, ?_⟩⟩
    · rw [hsource, text, List.reverse_reverse]
    · rw [← hstart, ← byteLength_reverse]
    · obtain ⟨hpass, -⟩ := passes_of_ahead_eq (c := d) rfl
      rw [String.toList_ofList]
      refine ⟨hpass, ?_⟩
      rw [hpass.offset, ← hstop, byteLength_append]
      exact congrArg (· + byteLength covered) (byteLength_reverse before)
  · rintro ⟨text, h⟩
    obtain ⟨d, e, htext, hstart, hpass, hstop⟩ := slice?_eq_some_iff.1 h
    refine ⟨d.passed.reverse, text.toList, e.ahead, ?_, ?_, ?_⟩
    · rw [← htext, Cursor.text, hpass.ahead]
    · rw [byteLength_reverse, ← d.offset_eq, hstart]
    · rw [byteLength_append, byteLength_reverse, ← d.offset_eq, ← hpass.offset, hstop]

/-! ## Stepping over an extent -/

/-- The offset is that of a place of the text. -/
def HasPlace (c : Cursor) (pos : Nat) : Prop := ∃ d : Cursor, d.text = c.text ∧ d.offset = pos

/-- From the cursor on to the offset there is only trivia. -/
def TriviaTo (c : Cursor) (pos : Nat) : Prop :=
  ∀ gap d, c.Passes gap d → d.offset = pos → Trivia.Runs gap []

/-- The cursor goes to the end of an extent which covers a part of the text, and no token is left
behind on the way. -/
structure StepsOver (c : Cursor) (x : Extent) (d : Cursor) : Prop where
  part : x.IsPartOf c.text
  text : d.text = c.text
  stop : d.offset = x.stop.toNat
  trivia : c.TriviaTo x.start

/-- Where it has been checked that a node begins here, nothing is left to go on over. -/
theorem triviaTo_of_hasReached {start : Nat} (h : c.hasReached start = true) :
    c.TriviaTo start := by
  intro gap d hpass hstart
  have hle : start ≤ c.offset := by
    unfold hasReached at h
    rcases Bool.or_eq_true_iff.1 h with h | h
    · exact Nat.le_of_eq (beq_iff_eq.1 h).symm
    · exact Nat.le_of_lt (decide_eq_true_iff.1 (Bool.and_eq_true_iff.1 h).1)
  obtain rfl : gap = [] := by
    rw [hpass.eq_nil_iff]
    have := hpass.offset
    omega
  exact .nil

end Cursor

end Source

namespace Render

variable {ctx : Context} {x : Extent}

/-- To pass an extent, the cursor goes to its start and passes the text that it covers, if it covers
one. What is left to do is to write. -/
theorem replaceExtent_eq_write {place : Cursor} (htext : place.text = ctx.cursor.text)
    (hstart : place.offset = x.start) (text : String) :
    ∃ covered stop, place.Passes covered stop ∧
      (x.IsPartOf ctx.cursor.text → stop.offset = x.stop.toNat) ∧
      (¬x.IsPartOf ctx.cursor.text → stop = place) ∧
      replaceExtent x text ctx = write text (ctx.moved stop []) := by
  obtain ⟨stop, hpass, hpart, hnone⟩ :
      ∃ stop, place.Passes ((ctx.cursor.slice? x).getD "").toList stop ∧
        (x.IsPartOf ctx.cursor.text → stop.offset = x.stop.toNat) ∧
        (¬x.IsPartOf ctx.cursor.text → stop = place) := by
    rw [Cursor.isPartOf_iff]
    cases hslice : ctx.cursor.slice? x with
    | none =>
      refine ⟨place, .refl _, fun h => ?_, fun _ => rfl⟩
      obtain ⟨_, h⟩ := h
      cases h
    | some covered =>
      obtain ⟨start, stop, htext', hstart', hpass, hstop⟩ := Cursor.slice?_eq_some_iff.1 hslice
      obtain rfl := Cursor.eq_of_offset_eq (htext'.trans htext.symm) (hstart'.trans hstart.symm)
      exact ⟨stop, hpass, fun _ => hstop, fun h => absurd ⟨_, rfl⟩ h⟩
  refine ⟨_, stop, hpass, hpart, hnone, ?_⟩
  have hjump : jumpTo x.start ctx = .ok () (ctx.moved place []) := hstart ▸ jumpTo_eq htext
  calc
    replaceExtent x text ctx = swap _ text (ctx.moved place []) :=
      (bind_eq_of_ok rfl).trans (bind_eq_of_ok hjump)
    _ = write text ((ctx.moved place []).moved stop []) := swap_eq_write hpass text
    _ = write text (ctx.moved stop []) := by rw [Context.moved_moved, List.append_nil]

/-- An extent that starts at no place of the source is refused before anything is done. -/
theorem replaceExtent_eq_error (h : ¬ctx.cursor.HasPlace x.start) (text : String) :
    replaceExtent x text ctx =
      .error (.desync s!"offset {x.start}" s!"text of length {ctx.cursor.length}"
        (.empty (min x.start ctx.cursor.length))) ctx := by
  have hat : ctx.cursor.at? x.start = none :=
    Option.eq_none_iff_forall_ne_some.2 fun d hd => h ⟨d, Cursor.at?_eq_some_iff.1 hd⟩
  have hjump : jumpTo x.start ctx =
      .error (.ofCursor (.outOfBounds x.start ctx.cursor.length)) ctx := by
    simp only [jumpTo, walk, Cursor.jumpTo, hat]
  exact (bind_eq_of_ok rfl).trans (bind_eq_of_error hjump)

theorem write_error {text : String} {e : RenderError} {after : Context}
    (h : write text ctx = .error e after) : e = .output := by
  simp only [write, output] at h
  split at h
  · cases h
  · cases h
    rfl

/-- An extent is passed from wherever the cursor is, unless its start is no place of the source.
This steps over the extent just if that covers a part of the source and no token comes before it,
which is so where its node has been found to begin. For any other extent nothing is passed but what
is jumped over. -/
theorem replaceExtent_steps (x : Extent) (text : String) (ctx : Context) :
    (∀ after, replaceExtent x text ctx = .ok () after →
      (ctx.cursor.StepsOver x after.cursor ↔
        x.IsPartOf ctx.cursor.text ∧ ctx.cursor.TriviaTo x.start) ∧
      (¬x.IsPartOf ctx.cursor.text → after.cursor.offset = x.start) ∧
      after = ctx.moved after.cursor text.toList) ∧
    (ctx.cursor.HasPlace x.start →
      (text = "" ∨ ctx.writer.Works → ∃ after, replaceExtent x text ctx = .ok () after) ∧
      ∀ e after, replaceExtent x text ctx = .error e after → e = .output) ∧
    (¬ctx.cursor.HasPlace x.start → replaceExtent x text ctx =
      .error (.desync s!"offset {x.start}" s!"text of length {ctx.cursor.length}"
        (.empty (min x.start ctx.cursor.length))) ctx) ∧
    (ctx.cursor.hasReached x.start = true → ctx.cursor.TriviaTo x.start) := by
  refine ⟨fun after h => ?_, fun hplace => ?_, fun h => replaceExtent_eq_error h text,
    Cursor.triviaTo_of_hasReached⟩
  · by_cases hplace : ctx.cursor.HasPlace x.start
    · obtain ⟨place, htext, hstart⟩ := hplace
      obtain ⟨covered, stop, hpass, hpart, hnone, heq⟩ := replaceExtent_eq_write htext hstart text
      rw [heq] at h
      obtain rfl := write_ok h
      rw [Context.moved_moved, List.nil_append]
      refine ⟨⟨fun h => ⟨h.part, h.trivia⟩, fun h => ⟨h.1, ?_, hpart h.1, h.2⟩⟩, fun h => ?_, rfl⟩
      · exact hpass.text_eq.trans htext
      · exact (congrArg Cursor.offset (hnone h)).trans hstart
    · rw [replaceExtent_eq_error hplace] at h
      cases h
  · obtain ⟨place, htext, hstart⟩ := hplace
    obtain ⟨covered, stop, -, -, -, heq⟩ := replaceExtent_eq_write htext hstart text
    rw [heq]
    refine ⟨fun hwrite => ?_, fun e after => write_error⟩
    rcases hwrite with rfl | hworks
    · exact ⟨_, rfl⟩
    · have hworks : (ctx.moved stop []).writer.Works := hworks.added []
      exact ⟨_, write_eq hworks text⟩

/-- A type after its modifiers gives way to a keyword. -/
theorem replaceExtent_steps_type :
    let ctx : Context :=
      { Context.start "final é x;" true with cursor := (Cursor.ofText "final é x;").pass 6 }
    ∃ after, replaceExtent ⟨6, 8⟩ "let" ctx = .ok () after ∧
      ctx.cursor.StepsOver ⟨6, 8⟩ after.cursor ∧ after.writer.sink.received = "let" := by
  intro ctx
  obtain ⟨hok, hsome, -, htrivia⟩ := replaceExtent_steps ⟨6, 8⟩ "let" ctx
  have hplace : ctx.cursor.HasPlace 6 := ⟨ctx.cursor, rfl, by decide +kernel⟩
  have hpart : Extent.IsPartOf ⟨6, 8⟩ ctx.cursor.text :=
    ⟨"final ".toList, "é".toList, " x;".toList, by decide +kernel⟩
  obtain ⟨after, hrun⟩ := (hsome hplace).1 (.inr (.inr rfl))
  obtain ⟨hsteps, -, hafter⟩ := hok after hrun
  refine ⟨after, hrun, hsteps.2 ⟨hpart, htrivia (by decide +kernel)⟩, ?_⟩
  rw [hafter]
  change (ctx.writer.added "let".toList).sink.received = "let"
  decide +kernel

/-- Of an extent whose end comes first nothing is passed, and a token before an extent is jumped
over. Neither is reported. -/
theorem replaceExtent_accepts :
    (∃ after, replaceExtent ⟨1, 0⟩ "" (.start "ab" true) = .ok () after ∧
      ¬(Cursor.ofText "ab").StepsOver ⟨1, 0⟩ after.cursor) ∧
    ∃ after, replaceExtent ⟨2, 3⟩ "" (.start "x y" true) = .ok () after ∧
      ¬(Cursor.ofText "x y").StepsOver ⟨2, 3⟩ after.cursor := by
  constructor
  · have htext : ((Cursor.ofText "ab").pass 1).text = (Context.start "ab" true).cursor.text :=
      Cursor.text_pass _ 1
    have hplace : ((Cursor.ofText "ab").pass 1).offset = Extent.start ⟨1, 0⟩ := by decide +kernel
    obtain ⟨_, _, -, -, -, heq⟩ := replaceExtent_eq_write htext hplace ""
    refine ⟨_, heq, fun h => ?_⟩
    obtain ⟨before, covered, _, _, hstart, hstop⟩ := h.part
    rw [byteLength_append] at hstop
    have hstart : byteLength before = 1 := hstart
    have hstop : byteLength before + byteLength covered = 0 := hstop
    omega
  · have htext : ((Cursor.ofText "x y").pass 2).text = (Context.start "x y" true).cursor.text :=
      Cursor.text_pass _ 2
    have hplace : ((Cursor.ofText "x y").pass 2).offset = Extent.start ⟨2, 3⟩ := by decide +kernel
    obtain ⟨_, _, -, -, -, heq⟩ := replaceExtent_eq_write htext hplace ""
    refine ⟨_, heq, fun h => ?_⟩
    have hruns := h.trivia _ _ (Cursor.passes_pass _ 2) hplace
    exact hruns.next_ne_absent (by decide +kernel) (by decide +kernel)

end Render

end Lockstep
