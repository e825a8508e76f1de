import Lockstep.Proofs.CursorCourse
import Lockstep.Proofs.TriviaScan
import Lockstep.Render.Error

/-!
# Where a failing step is reported

An operation of the cursor fails in one of three ways, and each of them has its operations
(`Op.Fails`). The report points at the text that stands where a token is missing, or, without a
length, at the place of the failure. Only at the end of the source there is no text to point at:
there the report is as long as the words that it has for the end. The main statement is
`Op.span_of_error`.

- `Span.Covers`: the part of a text that a span points at.
- `Op.fails_of_error`: how an operation fails, and where.
-/

namespace Lockstep

open Render Source Text

/-- The span points at this part of the text. -/
def Text.Span.Covers (s : Span) (source covered : List Char) : Prop :=
  ∃ before behind, source = before ++ (covered ++ behind) ∧
    byteLength before = s.start ∧ byteLength covered = s.length

theorem Text.Span.Covers.le {s : Span} {source covered : List Char} (h : s.Covers source covered) :
    s.start + s.length ≤ byteLength source := by
  obtain ⟨before, behind, rfl, hstart, hlength⟩ := h
  rw [byteLength_append, byteLength_append]
  omega

namespace Source.Cursor

variable {c d : Cursor} {text : List Char} {token : String} {e : Error}

theorem offset_add_ahead (c : Cursor) : c.offset + byteLength c.ahead = byteLength c.text := by
  rw [text, byteLength_append, byteLength_reverse, c.offset_eq]

theorem covers_of_ahead (h : text <+: c.ahead) :
    Span.Covers ⟨c.offset, byteLength text⟩ c.text text := by
  obtain ⟨behind, hahead⟩ := h
  refine ⟨c.passed.reverse, behind, ?_, ?_, rfl⟩
  · rw [hahead, Cursor.text]
  · rw [byteLength_reverse, c.offset_eq]

/-! ## What is quoted -/

/-- What stands for the end of a source in a report. -/
def endMark : String := "<end of file>"

theorem excerpt_of_end (h : c.ahead = []) (wanted : Nat) : c.excerpt wanted = endMark := by
  simp only [excerpt, atEnd, h, List.take_nil, List.takeWhile_nil, List.isEmpty_nil, Bool.and_self,
    if_true, endMark]

theorem excerpt_begins (h : c.ahead ≠ []) (wanted : Nat) :
    (c.excerpt wanted).toList <+: c.ahead := by
  have hend : c.atEnd = false := List.isEmpty_eq_false_iff.2 h
  simp only [excerpt, hend, Bool.and_false, Bool.false_eq_true, if_false, String.toList_ofList]
  exact (List.takeWhile_prefix _).trans (List.take_prefix _ _)

/-! ## How an operation fails -/

namespace Op

/-- The ways in which an operation fails that leaves the cursor at `d`. -/
inductive Fails (c : Cursor) : Op → Error → Cursor → Prop where
  | outside (pos : Nat) : c.at? pos = none → Fails c (.jumpTo pos) (.outOfBounds pos c.length) c
  | missing (token : String) : ¬token.toList <+: c.ahead →
    Fails c (.expect token) (.mismatch token (c.excerpt (byteLength token.toList)) c.offset) c
  | unclosed {op : Op} {d : Cursor} : (∀ token, op ≠ .expect token) → d.text = c.text →
    OpensComment d.ahead → Fails c op (.unclosedComment d.offset) d

theorem fails_of_error {op : Op} (h : op.run c = .error e d) : Fails c op e d := by
  cases op with
  | jumpTo pos =>
    have hjump := map_error (f := fun _ => .done) h
    simp only [Cursor.jumpTo] at hjump
    split at hjump
    · cases hjump
    · next hat =>
      cases hjump
      exact .outside pos hat
  | toEnd => cases h
  | peek =>
    have hpeek := map_error h
    simp only [Cursor.peek] at hpeek
    split at hpeek
    · cases hpeek
    · next hopen =>
      cases hpeek
      exact .unclosed (by intro _ h; cases h) rfl (Trivia.next_eq_unclosed_iff.1 hopen)
    · cases hpeek
  | skipTrivia limit =>
    have hskip := map_error h
    obtain ⟨⟨rs, mid, hscans, hend⟩, -, -⟩ := skipTrivia_exact limit c
    rcases hend with ⟨hok, -⟩ | ⟨hfail, -, hopens, -⟩
    · rw [hok] at hskip
      cases hskip
    · rw [hfail] at hskip
      cases hskip
      exact .unclosed (by intro _ h; cases h) hscans.runsTo.passes.text_eq hopens
  | skipBlanks => cases map_error h
  | skipLineRest =>
    have hskip := map_error h
    simp only [Cursor.skipLineRest] at hskip
    split at hskip
    · cases hskip
    · next hopen =>
      cases hskip
      exact .unclosed (by intro _ h; cases h) (text_pass _ _) (Trivia.next_eq_unclosed_iff.1 hopen)
    · split at hskip <;> cases hskip
  | expect token =>
    have hexpect := map_error (f := fun _ => .done) h
    simp only [Cursor.expect] at hexpect
    split at hexpect
    · cases hexpect
    · next hstart =>
      cases hexpect
      exact .missing token fun hprefix => hstart (List.isPrefixOf_iff_prefix.2 hprefix)

/-- What the report of an operation that fails at `c` quotes, and the span that it points at. -/
inductive Reports (c : Cursor) : Op → String → Span → Prop where
  | text (token found : String) (span : Span) : c.ahead ≠ [] → span.Covers c.text found.toList →
    Reports c (.expect token) found span
  | sourceEnd (token : String) : c.ahead = [] →
    Reports c (.expect token) endMark ⟨byteLength c.text, byteLength endMark.toList⟩
  | place {op : Op} (found : String) (pos : Nat) : (∀ token, op ≠ .expect token) →
    pos ≤ byteLength c.text → Reports c op found (.empty pos)

theorem Fails.reports {op : Op} (h : Fails c op e d) :
    ∃ expected found span, RenderError.ofCursor e = .desync expected found span ∧
      Reports c op found span := by
  cases h with
  | outside pos hat =>
    refine ⟨_, _, _, rfl, .place _ _ nofun ?_⟩
    have := c.offset_add_ahead
    rw [length, this]
    exact Nat.min_le_right _ _
  | missing token hmissing =>
    by_cases hend : c.ahead = []
    · have hoffset := c.offset_add_ahead
      rw [hend, byteLength_nil, Nat.add_zero] at hoffset
      refine ⟨_, _, _, rfl, ?_⟩
      rw [excerpt_of_end hend, hoffset]
      exact .sourceEnd token hend
    · exact ⟨_, _, _, rfl, .text _ _ _ hend (covers_of_ahead (excerpt_begins hend _))⟩
  | unclosed hop htext hopens =>
    refine ⟨_, _, _, rfl, .place _ _ hop ?_⟩
    rw [← htext, ← d.offset_add_ahead]
    exact Nat.le_add_right _ _

theorem Reports.le_iff {op : Op} {found : String} {span : Span} (h : Reports c op found span) :
    span.start + span.length ≤ byteLength c.text ↔
      ¬(c.ahead = [] ∧ ∃ token, op = .expect token) := by
  cases h with
  | text token found span hne hcovers =>
    exact ⟨fun _ hend => hne hend.1, fun _ => hcovers.le⟩
  | sourceEnd token hend =>
    have hmark : byteLength endMark.toList = 13 := by decide
    constructor
    · intro hle
      simp only [hmark] at hle
      omega
    · intro hinside
      exact absurd ⟨hend, token, rfl⟩ hinside
  | place found pos hop hle =>
    constructor
    · rintro - ⟨-, token, rfl⟩
      exact hop token rfl
    · intro _
      exact hle

/-- **A report of a failing operation points into the source, but for a token that is missing at
its end.** Where another text stands than the token, the report points at just what it quotes; for
another operation it points at a place of the source and at no text. For a token that is missing at
the end of the source it begins there, and is as long as the words that it has for the end. -/
theorem span_of_error {source : String} (hsource : c.text = source.toList) {op : Op}
    (h : op.run c = .error e d) :
    ∃ expected found span, RenderError.ofCursor e = .desync expected found span ∧
      (span.start + span.length ≤ byteLength source.toList ↔
        ¬(c.ahead = [] ∧ ∃ token, op = .expect token)) ∧
      Reports c op found span := by
  obtain ⟨expected, found, span, herror, hreports⟩ := (fails_of_error h).reports
  refine ⟨expected, found, span, herror, ?_, hreports⟩
  rw [← hsource]
  exact hreports.le_iff

/-- Where a token is missing before an accented letter and the end of the line, the report points at
the two bytes of the letter. -/
theorem span_of_error_letter :
    let c := Cursor.ofText "é\n"
    c.text = "é\n".toList ∧ (Op.expect "ab").run c = .error (.mismatch "ab" "é" 0) c ∧
    RenderError.ofCursor (.mismatch "ab" "é" 0) = .desync "ab" "é" ⟨0, 2⟩ ∧
    0 + 2 ≤ byteLength "é\n".toList ∧ Reports c (.expect "ab") "é" ⟨0, 2⟩ := by
  intro c
  have hfails : (Op.expect "ab").run c = .error (.mismatch "ab" "é" 0) c := rfl
  obtain ⟨expected, found, span, herror, hinside, hreports⟩ := span_of_error (c := c) rfl hfails
  obtain ⟨rfl, rfl, rfl⟩ := RenderError.desync.inj herror
  have hahead : c.ahead ≠ [] := List.cons_ne_nil _ _
  exact ⟨rfl, hfails, rfl, hinside.2 fun hend => hahead hend.1, hreports⟩

/-- At the end of a source of one byte the report of a missing token points at thirteen bytes more
than there are. -/
theorem exists_span_past_end :
    ¬∀ (source : String) (c d : Cursor) (op : Op) (e : Error), c.text = source.toList →
      op.run c = .error e d → ∀ span, (RenderError.ofCursor e).span? = some span →
        span.start + span.length ≤ byteLength source.toList := by
  intro hinside
  have hle := hinside "x" (ofText "x").toEnd (ofText "x").toEnd (.expect ";")
    (.mismatch ";" endMark 1) rfl rfl ⟨1, 13⟩ rfl
  exact absurd hle (by decide)

end Op

end Source.Cursor

end Lockstep
