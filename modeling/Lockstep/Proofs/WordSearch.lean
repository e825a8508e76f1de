import Lockstep.Proofs.CursorMoves
import Lockstep.Tree.Assembler

/-!
# Searching for a word

The search for a word tries one occurrence after another and goes on behind each that is part of a
longer identifier. It misses nothing by that: an identifier that begins inside another one has a
character of an identifier before it, so it does not stand by itself.

- `Assembler.Alone`: a word that stands by itself.
- `Assembler.Ends`: the tries of a search, one after another, until one decides.
- `Assembler.Finds`: the first place where a word stands by itself.
- `Assembler.word_exact`: the search ends, and it finds that place or there is none.
-/

namespace Lockstep.Tree.Assembler

open Source Source.Cursor Text

variable {pattern text : List Char} {c start stop : Cursor} {n : Nat}

/-! ## The first occurrence of a pattern -/

theorem find?_eq_some (h : find? pattern text = some n) :
    n ≤ text.length ∧ pattern <+: text.drop n ∧ ∀ m < n, ¬pattern <+: text.drop m := by
  induction text generalizing n with
  | nil =>
    simp only [find?] at h
    split at h
    · next hempty =>
      cases h
      exact ⟨Nat.le_refl 0, List.isEmpty_iff.1 hempty ▸ List.nil_prefix, nofun⟩
    · cases h
  | cons x rest ih =>
    simp only [find?] at h
    split at h
    · next hbegins =>
      cases h
      exact ⟨Nat.zero_le _, List.isPrefixOf_iff_prefix.1 hbegins, nofun⟩
    · next hbegins =>
      obtain ⟨k, hk, rfl⟩ := Option.map_eq_some_iff.1 h
      obtain ⟨hlen, hthere, hfirst⟩ := ih hk
      refine ⟨Nat.succ_le_succ hlen, hthere, fun m hm => ?_⟩
      cases m with
      | zero => exact fun hhere => hbegins (List.isPrefixOf_iff_prefix.2 hhere)
      | succ m => exact hfirst m (Nat.lt_of_succ_lt_succ hm)

theorem find?_eq_none (h : find? pattern text = none) (m : Nat) : ¬pattern <+: text.drop m := by
  induction text generalizing m with
  | nil =>
    simp only [find?] at h
    split at h
    · cases h
    · next hempty =>
      intro hthere
      rw [List.drop_nil] at hthere
      exact hempty (List.isEmpty_iff.2 (List.prefix_nil.1 hthere))
  | cons x rest ih =>
    simp only [find?] at h
    split at h
    · cases h
    · next hbegins =>
      cases m with
      | zero => exact fun hhere => hbegins (List.isPrefixOf_iff_prefix.2 hhere)
      | succ m => exact ih (Option.map_eq_none_iff.1 h) m

/-! ## Words that stand by themselves -/

/-- From `start` to `stop` there is a word, with no part of an identifier next to it. -/
structure Alone (word : List Char) (start stop : Cursor) : Prop where
  passes : start.Passes word stop
  before : ∀ x ∈ start.passed.head?, isIdentifierPart x = false
  behind : ∀ x ∈ stop.ahead.head?, isIdentifierPart x = false

theorem isBoundary_iff {x : Option Char} :
    isBoundary x = true ↔ ∀ d ∈ x, isIdentifierPart d = false := by
  cases x with
  | none => exact ⟨fun _ => nofun, fun _ => rfl⟩
  | some d => simp [isBoundary]

theorem alone_iff (h : start.Passes pattern stop) :
    Alone pattern start stop ↔
      (isBoundary start.passed.head? && isBoundary stop.ahead.head?) = true := by
  rw [Bool.and_eq_true, isBoundary_iff, isBoundary_iff]
  exact ⟨fun ha => ⟨ha.before, ha.behind⟩, fun hb => ⟨h, hb.1, hb.2⟩⟩

/-- From `start` to `stop` there is the first occurrence of a pattern behind a cursor; `gap` comes
before it. -/
structure Next (pattern : List Char) (c : Cursor) (gap : List Char) (start stop : Cursor) :
    Prop where
  after : c.Passes gap start
  passes : start.Passes pattern stop
  first : ∀ {gap' start' stop'}, c.Passes gap' start' → start'.Passes pattern stop' →
    gap.length ≤ gap'.length

/-- What a try says about the first occurrence. -/
def Try.Spec (pattern : List Char) (c : Cursor) : Try → Prop
  | .found start => ∃ gap stop, Next pattern c gap start stop ∧ Alone pattern start stop
  | .missing => ∀ gap start stop, c.Passes gap start → ¬start.Passes pattern stop
  | .rejected stop => ∃ gap start, Next pattern c gap start stop ∧ ¬Alone pattern start stop

theorem tryWord_spec (pattern : List Char) (c : Cursor) :
    (tryWord pattern c).Spec pattern c := by
  have hdrop : ∀ {gap : List Char} {start stop : Cursor}, c.Passes gap start →
      start.Passes pattern stop → pattern <+: c.ahead.drop gap.length := by
    intro gap start stop hgap hpass
    rw [hgap.ahead, List.drop_left, hpass.ahead]
    exact List.prefix_append pattern _
  unfold tryWord
  split
  · next hnone =>
    intro gap start stop hgap hpass
    exact find?_eq_none hnone gap.length (hdrop hgap hpass)
  · next n hsome =>
    obtain ⟨hlen, ⟨rest, hrest⟩, hfirst⟩ := find?_eq_some hsome
    have hpass := (passes_of_ahead_eq (c := c.pass n) hrest.symm).1
    have hnext : Next pattern c (c.ahead.take n) (c.pass n) ((c.pass n).pass pattern.length) := by
      refine ⟨c.passes_pass n, hpass, fun hgap' hpass' => ?_⟩
      rw [List.length_take, Nat.min_eq_left hlen]
      exact Nat.le_of_not_lt fun hlt => hfirst _ hlt (hdrop hgap' hpass')
    dsimp only
    split
    · next hboundary => exact ⟨_, _, hnext, (alone_iff hpass).2 hboundary⟩
    · next hboundary => exact ⟨_, _, hnext, fun h => hboundary ((alone_iff hpass).1 h)⟩

/-! ## Tries, one after another -/

/-- A search ends with a place, or with none. Nothing here makes a search end: each try that is
rejected is followed by another. -/
inductive Ends (pattern : List Char) : Cursor → Option Cursor → Prop where
  | found {c start : Cursor} : tryWord pattern c = .found start → Ends pattern c (some start)
  | missing {c : Cursor} : tryWord pattern c = .missing → Ends pattern c none
  | rejected {c stop : Cursor} {r : Option Cursor} :
    tryWord pattern c = .rejected stop → Ends pattern stop r → Ends pattern c r

theorem length_lt_of_rejected (hne : pattern ≠ []) (h : tryWord pattern c = .rejected stop) :
    stop.ahead.length < c.ahead.length := by
  obtain ⟨gap, start, hnext, -⟩ : (Try.rejected stop).Spec pattern c := h ▸ tryWord_spec pattern c
  have hlen := List.length_pos_iff.2 hne
  rw [hnext.after.ahead, hnext.passes.ahead, List.length_append, List.length_append]
  omega

/-- The search for a word that is not empty gets on with every try. -/
theorem ends_findWord? (hne : pattern ≠ []) (c : Cursor) :
    Ends pattern c (findWord? pattern c) := by
  fun_induction findWord? pattern c with
  | case1 c start h => exact .found h
  | case2 c h => exact .missing h
  | case3 c stop h _ ih => exact .rejected h ih
  | case4 c stop h hstays => exact absurd (length_lt_of_rejected hne h) hstays

theorem tryWord_nil (h : ¬Alone [] c c) : tryWord [] c = .rejected c := by
  have hspec := tryWord_spec [] c
  have hhere : ∀ {gap start stop}, Next [] c gap start stop → start = c ∧ stop = c := by
    intro gap start stop hnext
    have hlen := hnext.first (Passes.refl c) (Passes.refl c)
    obtain rfl := List.eq_nil_of_length_eq_zero (Nat.le_zero.1 hlen)
    obtain rfl := (Passes.refl c).right_unique hnext.after
    exact ⟨rfl, hnext.passes.right_unique (Passes.refl c)⟩
  cases htry : tryWord [] c with
  | found start =>
    rw [htry] at hspec
    obtain ⟨gap, stop, hnext, halone⟩ := hspec
    obtain ⟨rfl, rfl⟩ := hhere hnext
    exact absurd halone h
  | missing =>
    rw [htry] at hspec
    exact absurd (Passes.refl c) (hspec [] c c (Passes.refl c))
  | rejected stop =>
    rw [htry] at hspec
    obtain ⟨gap, start, hnext, -⟩ := hspec
    rw [(hhere hnext).2]

/-- The search for the empty word inside an identifier does not end. -/
theorem not_ends_nil (h : ¬Alone [] c c) (r : Option Cursor) : ¬Ends [] c r := by
  intro hends
  induction hends with
  | found hfound => cases (tryWord_nil h).symm.trans hfound
  | missing hmissing => cases (tryWord_nil h).symm.trans hmissing
  | rejected hrejected _ ih =>
    cases (tryWord_nil h).symm.trans hrejected
    exact ih h

/-! ## What is found -/

/-- The first place from the cursor on where the word stands by itself, or none if there is no
such place. -/
def Finds (word : List Char) (c : Cursor) : Option Cursor → Prop
  | some start =>
    ∃ gap stop, c.Passes gap start ∧ Alone word start stop ∧
      ∀ gap' start' stop', c.Passes gap' start' → Alone word start' stop' →
        gap.length ≤ gap'.length
  | none => ∀ gap start stop, c.Passes gap start → ¬Alone word start stop

/-- Behind a part of an identifier no word stands by itself. -/
theorem not_alone_of_passes {word front : List Char} {mid : Cursor}
    (hfront : ∀ x ∈ front, isIdentifierPart x = true) (hne : front ≠ [])
    (h : start.Passes front mid) : ¬Alone word mid stop := by
  intro halone
  obtain ⟨x, rest, hx⟩ := List.exists_cons_of_ne_nil (mt List.reverse_eq_nil_iff.1 hne)
  have hmem : x ∈ front := List.mem_reverse.1 (hx ▸ List.mem_cons_self)
  have hbefore : isIdentifierPart x = false := by
    refine halone.before x ?_
    rw [h.passed, hx]
    rfl
  rw [hfront x hmem] at hbefore
  cases hbefore

/-- Where an identifier occurs but does not stand by itself, the next place where it does is behind
that occurrence: nothing is missed that overlaps with it. -/
theorem passes_of_not_alone {word gap : List Char} {start' stop' : Cursor}
    (hword : ∀ x ∈ word, isIdentifierPart x = true) (hpass : start.Passes word stop)
    (hnot : ¬Alone word start stop) (hgap : start.Passes gap start')
    (halone : Alone word start' stop') :
    ∃ later, gap = word ++ later ∧ stop.Passes later start' := by
  have hahead : word ++ stop.ahead = gap ++ start'.ahead := hpass.ahead ▸ hgap.ahead
  obtain ⟨later, rfl, -⟩ | ⟨rest, rfl, -⟩ := List.append_eq_append_iff.1 hahead
  · exact ⟨later, rfl, hpass.eq_pass ▸ hgap.drop⟩
  · -- otherwise the place is where the occurrence begins, or inside it
    by_cases hne : gap = []
    · subst hne
      obtain rfl := (Passes.refl start).right_unique hgap
      obtain rfl := hpass.right_unique halone.passes
      exact absurd halone hnot
    · have hpart : ∀ x ∈ gap, isIdentifierPart x = true := fun x hx =>
        hword x (List.mem_append_left rest hx)
      exact absurd halone (not_alone_of_passes hpart hne hgap)

/-- What a search for an identifier ends with is the first place where it stands by itself. -/
theorem Ends.finds {word : List Char} {r : Option Cursor}
    (hword : ∀ x ∈ word, isIdentifierPart x = true) (h : Ends word c r) : Finds word c r := by
  induction h with
  | @found c start h =>
    obtain ⟨gap, stop, hnext, halone⟩ : (Try.found start).Spec word c := h ▸ tryWord_spec word c
    exact ⟨gap, stop, hnext.after, halone, fun gap' start' stop' hgap' halone' =>
      hnext.first hgap' halone'.passes⟩
  | @missing c h =>
    have hnever : Try.missing.Spec word c := h ▸ tryWord_spec word c
    exact fun gap start stop hgap halone => hnever gap start stop hgap halone.passes
  | @rejected c stop r h _ ih =>
    obtain ⟨gap, start, hnext, hnot⟩ : (Try.rejected stop).Spec word c := h ▸ tryWord_spec word c
    -- a place from `c` on where the word stands by itself is also one from `stop` on
    have hlater : ∀ {gap' start' stop'}, c.Passes gap' start' → Alone word start' stop' →
        ∃ later, gap' = gap ++ (word ++ later) ∧ stop.Passes later start' := by
      intro gap' start' stop' hgap' halone'
      obtain ⟨between, rfl, hbetween⟩ :=
        hnext.after.of_length_le hgap' (hnext.first hgap' halone'.passes)
      obtain ⟨later, rfl, hlater⟩ :=
        passes_of_not_alone hword hnext.passes hnot hbetween halone'
      exact ⟨later, rfl, hlater⟩
    cases r with
    | some found =>
      obtain ⟨later, after, hpass, halone, hfirst⟩ := ih
      refine ⟨gap ++ word ++ later, after, (hnext.after.trans hnext.passes).trans hpass, halone,
        fun gap' start' stop' hgap' halone' => ?_⟩
      obtain ⟨later', rfl, hlater'⟩ := hlater hgap' halone'
      have := hfirst later' start' stop' hlater' halone'
      simp only [List.length_append]
      omega
    | none =>
      intro gap' start' stop' hgap' halone'
      obtain ⟨later', -, hlater'⟩ := hlater hgap' halone'
      exact ih later' start' stop' hlater' halone'

/-! ## Finding a word -/

theorem word_eq (w : String) (c : Cursor) :
    word w c = match findWord? w.toList c with
      | some start => take start w.toList c
      | none => .error (.wordMissing w c.offset (String.ofList c.text)) c := by
  change (match findWord? w.toList c with
    | some start => take start w.toList
    | none => throw (.wordMissing w c.offset (String.ofList c.text)) : Assemble Extent) c = _
  cases findWord? w.toList c with
  | some start => rfl
  | none => rfl

theorem word_eq_ok {w : String} (h : findWord? w.toList c = some start)
    (hpass : start.Passes w.toList stop) :
    word w c = .ok (.ofNat start.offset stop.offset) stop := by
  rw [word_eq, h, hpass.eq_pass]
  rfl

/-- In a text of the size that offsets can count, an extent covers what lies between its places. -/
theorem slice?_ofNat {gap : List Char} (hgap : c.Passes gap start) (hpass : start.Passes text stop)
    (hsize : c.length < offsetCount) :
    c.slice? (.ofNat start.offset stop.offset) = some (String.ofList text) := by
  have hstop : stop.offset < offsetCount := by
    refine Nat.lt_of_le_of_lt ?_ hsize
    rw [← hgap.length_eq, ← hpass.length_eq]
    exact Nat.le_add_right _ _
  have hstart : start.offset < offsetCount :=
    Nat.lt_of_le_of_lt (hpass.offset ▸ Nat.le_add_right _ _) hstop
  refine slice?_of_passes hgap.text_eq hpass ?_ ?_
  · exact (UInt32.toNat_ofNat_of_lt' hstart).symm
  · exact (UInt32.toNat_ofNat_of_lt' hstop).symm

/-- The search for an identifier ends, from any place of any text. It finds the first place from
there on where the identifier stands by itself, gives its extent and goes to its end; in a text of
the size that offsets can count, the extent covers the identifier. It fails just if there is no such
place, and then stays where it is. -/
theorem word_exact (w : String) (hw : isIdentifier w.toList = true) (c : Cursor) :
    ((∃ gap start stop, Ends w.toList c (some start) ∧
        word w c = .ok (.ofNat start.offset stop.offset) stop ∧
        c.Passes gap start ∧ Alone w.toList start stop ∧
        (∀ gap' start' stop', c.Passes gap' start' → Alone w.toList start' stop' →
          gap.length ≤ gap'.length) ∧
        (c.length < offsetCount → c.slice? (.ofNat start.offset stop.offset) = some w)) ∨
      Ends w.toList c none ∧
        word w c = .error (.wordMissing w c.offset (String.ofList c.text)) c) ∧
    ((∃ fault after, word w c = .error fault after) ↔
      ∀ gap start stop, c.Passes gap start → ¬Alone w.toList start stop) := by
  have hends := ends_findWord? (ne_nil_of_isIdentifier hw) c
  have hfinds := hends.finds (isIdentifierPart_of_mem hw)
  cases hfind : findWord? w.toList c with
  | some start =>
    rw [hfind] at hends hfinds
    obtain ⟨gap, stop, hgap, halone, hfirst⟩ := hfinds
    have hok := word_eq_ok hfind halone.passes
    have hslice : c.length < offsetCount → c.slice? (.ofNat start.offset stop.offset) = some w :=
      fun hsize => (slice?_ofNat hgap halone.passes hsize).trans (by rw [String.ofList_toList])
    refine ⟨.inl ⟨gap, start, stop, hends, hok, hgap, halone, hfirst, hslice⟩, ?_, ?_⟩
    · rintro ⟨fault, after, herror⟩
      rw [hok] at herror
      cases herror
    · exact fun hnever => absurd halone (hnever gap start stop hgap)
  | none =>
    rw [hfind] at hends hfinds
    have herror : word w c = .error (.wordMissing w c.offset (String.ofList c.text)) c := by
      rw [word_eq, hfind]
    exact ⟨.inr ⟨hends, herror⟩, fun _ => hfinds, fun _ => ⟨_, _, herror⟩⟩

/-- The first two occurrences are parts of longer identifiers, one at each side. -/
theorem word_exact_third :
    isIdentifier "x".toList = true ∧
      ∃ start stop, Ends "x".toList (Cursor.ofText "ax xs x") (some start) ∧
        word "x" (Cursor.ofText "ax xs x") = .ok ⟨6, 7⟩ stop ∧
        Alone "x".toList start stop := by
  have hfind : findWord? "x".toList (Cursor.ofText "ax xs x") =
      some ((Cursor.ofText "ax xs x").pass 6) := by with_unfolding_all rfl
  have hpass : ((Cursor.ofText "ax xs x").pass 6).Passes "x".toList
      ((Cursor.ofText "ax xs x").pass 7) := ⟨rfl, rfl⟩
  have hok : word "x" (Cursor.ofText "ax xs x") = .ok ⟨6, 7⟩ ((Cursor.ofText "ax xs x").pass 7) :=
    word_eq_ok hfind hpass
  refine ⟨by decide, ?_⟩
  obtain ⟨⟨gap, start, stop, hends, hword, -, halone, -⟩ | ⟨-, herror⟩, -⟩ :=
    word_exact "x" (by decide) (Cursor.ofText "ax xs x")
  · rw [hok] at hword
    injection hword with _ hstop
    exact ⟨start, stop, hends, hstop ▸ hok, halone⟩
  · rw [hok] at herror
    cases herror

end Lockstep.Tree.Assembler
