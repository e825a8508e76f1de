import Lockstep.Proofs.InStep

/-!
# The trivia between the tokens of a node

Where a layout lies in a source, the white space and the comments between its tokens are a list of
runs, each with its place. They come in the order of the source, between the two ends of the layout.

- `PlacedRun`, `Cursor.RunsTo`: runs of trivia with their places, one after another.
- `Layout.IsKnown`: all tokens of a layout are known.
- `Layout.Gaps`: a layout lies between two places, with these runs between its tokens.
- `Layout.Lies.exists_gaps`: wherever a known layout lies, it does so with some runs.
-/

namespace Lockstep.Source

open Text

/-- A run of trivia with its place and its text. -/
structure PlacedRun where
  kind : TriviaKind
  /-- The offset of its first byte. -/
  start : Nat
  text : List Char
  deriving DecidableEq, Repr

namespace PlacedRun

/-- The offset past its last byte. -/
def stop (r : PlacedRun) : Nat := r.start + byteLength r.text

def isComment (r : PlacedRun) : Bool := r.kind == .lineComment || r.kind == .blockComment

/-- The run is a part of the text that the extent covers. -/
def Within (r : PlacedRun) (x : Extent) : Prop := x.start ≤ r.start ∧ r.stop ≤ x.stop.toNat

instance (r : PlacedRun) (x : Extent) : Decidable (r.Within x) :=
  inferInstanceAs (Decidable (_ ∧ _))

end PlacedRun

/-- The runs lie between two offsets. -/
structure RunsBetween (a b : Nat) (rs : List PlacedRun) : Prop where
  le : a ≤ b
  mem : ∀ r ∈ rs, a ≤ r.start ∧ r.start < r.stop ∧ r.stop ≤ b

namespace RunsBetween

variable {a b c : Nat} {rs rs' : List PlacedRun}

theorem nil (h : a ≤ b) : RunsBetween a b [] := ⟨h, nofun⟩

theorem append (h : RunsBetween a b rs) (h' : RunsBetween b c rs') :
    RunsBetween a c (rs ++ rs') where
  le := Nat.le_trans h.le h'.le
  mem r hr := by
    have hab := h.le
    have hbc := h'.le
    rcases List.mem_append.1 hr with hr | hr
    · have := h.mem r hr
      omega
    · have := h'.mem r hr
      omega

theorem singleton {r : PlacedRun} (hne : r.text ≠ []) : RunsBetween r.start r.stop [r] := by
  have hpos : 0 < byteLength r.text := by
    refine Nat.pos_of_ne_zero fun h => hne ?_
    exact byteLength_eq_zero.1 h
  refine ⟨Nat.le_add_right _ _, fun r' hr' => ?_⟩
  obtain rfl := List.mem_singleton.1 hr'
  exact ⟨Nat.le_refl _, Nat.lt_add_of_pos_right hpos, Nat.le_refl _⟩

end RunsBetween

namespace Cursor

/-! ## Runs from one place to another -/

/-- From one place to another there are these runs of trivia, each as it is read where it
stands. -/
inductive RunsTo : Cursor → List PlacedRun → Cursor → Prop where
  | nil : RunsTo c [] c
  | cons {c mid d : Cursor} {kind : TriviaKind} {text : List Char} {rs : List PlacedRun} :
      Trivia.next c.ahead = .run kind text.length → c.Passes text mid → RunsTo mid rs d →
      RunsTo c (⟨kind, c.offset, text⟩ :: rs) d

variable {c d : Cursor} {rs : List PlacedRun}

namespace RunsTo

theorem passes (h : c.RunsTo rs d) : c.Passes (rs.flatMap PlacedRun.text) d := by
  induction h with
  | nil => exact .refl _
  | cons _ hpass _ ih => exact hpass.trans ih

theorem runs (h : c.RunsTo rs d) : Trivia.Runs (rs.flatMap PlacedRun.text) d.ahead := by
  induction h with
  | nil => exact .nil
  | cons hrun hpass hrest ih =>
    rw [hpass.ahead, hrest.passes.ahead] at hrun
    exact .cons hrun ih

theorem between (h : c.RunsTo rs d) : RunsBetween c.offset d.offset rs := by
  induction h with
  | nil => exact .nil (Nat.le_refl _)
  | @cons c mid d kind text rs hrun hpass _ ih =>
    have hne : text ≠ [] := List.ne_nil_of_length_pos (Trivia.next_run_le hrun).1
    have hfirst := RunsBetween.singleton (r := ⟨kind, c.offset, text⟩) hne
    rw [PlacedRun.stop, ← hpass.offset] at hfirst
    exact hfirst.append ih

theorem sorted (h : c.RunsTo rs d) : rs.Pairwise (·.start < ·.start) := by
  induction h with
  | nil => exact .nil
  | @cons c mid d kind text rs hrun hpass hrest ih =>
    refine List.pairwise_cons.2 ⟨fun r hr => ?_, ih⟩
    have hpos := (Trivia.next_run_le hrun).1
    have hlen := hpass.offset
    have hr := (hrest.between.mem r hr).1
    have hne : byteLength text ≠ 0 := by
      rw [ne_eq, byteLength_eq_zero]
      exact List.ne_nil_of_length_pos hpos
    change c.offset < r.start
    omega

theorem append {e : Cursor} {rs' : List PlacedRun} (h : c.RunsTo rs d) (h' : d.RunsTo rs' e) :
    c.RunsTo (rs ++ rs') e := by
  induction h with
  | nil => exact h'
  | cons hrun hpass _ ih => exact .cons hrun hpass (ih h')

/-- There is one way to pass trivia up to a place where none is left. -/
theorem unique {text : List Char} {e : Cursor} (h : c.RunsTo rs d)
    (hd : Trivia.next d.ahead = .absent) (hpass : c.Passes text e)
    (hruns : Trivia.Runs text e.ahead) (he : Trivia.next e.ahead = .absent) :
    text = rs.flatMap PlacedRun.text ∧ e = d := by
  have hskip := Render.skipTrivia_eq hpass hruns he
  rw [Render.skipTrivia_eq h.passes h.runs hd] at hskip
  injection hskip with htext hcursor
  exact ⟨(String.ofList_inj.1 htext).symm, hcursor.symm⟩

/-- The run that is read at the first place is the first of them. -/
theorem next_run {kind : TriviaKind} {n : Nat} (h : c.RunsTo rs d)
    (hd : Trivia.next d.ahead = .absent) (hrun : Trivia.next c.ahead = .run kind n) :
    ∃ r rest, rs = r :: rest ∧ r.kind = kind ∧ c.RunsTo [r] (c.pass n) ∧
      (c.pass n).RunsTo rest d := by
  cases h with
  | nil => cases hd.symm.trans hrun
  | cons hhead hpass hrest =>
    cases hhead.symm.trans hrun
    obtain rfl := hpass.eq_pass
    exact ⟨_, _, rfl, rfl, .cons hhead hpass .nil, hrest⟩

/-- Blanks are passed without a comment. -/
theorem skipBlanks (h : c.RunsTo rs d) (hd : Trivia.next d.ahead = .absent) :
    ∃ passed rest, rs = passed ++ rest ∧ (∀ r ∈ passed, r.isComment = false) ∧
      c.RunsTo passed (c.pass c.blanksAhead) ∧ (c.pass c.blanksAhead).RunsTo rest d := by
  cases hahead : c.ahead.takeWhile isBlank with
  | nil =>
    have hnone : c.pass c.blanksAhead = c := by
      rw [blanksAhead, hahead]
      exact (Passes.refl c).eq_pass.symm
    rw [hnone]
    exact ⟨[], rs, rfl, List.forall_mem_nil _, .nil, h⟩
  | cons ch blanks =>
    obtain ⟨rest, hrest⟩ : ∃ rest, c.ahead = ch :: rest := by
      cases hcs : c.ahead with
      | nil =>
        rw [hcs] at hahead
        cases hahead
      | cons ch' rest =>
        rw [hcs, List.takeWhile_cons] at hahead
        split at hahead
        · obtain ⟨rfl, -⟩ := List.cons.inj hahead
          exact ⟨rest, rfl⟩
        · cases hahead
    have hblank : isBlank ch = true := by
      have hmem : ch ∈ c.ahead.takeWhile isBlank := hahead ▸ List.mem_cons_self
      exact List.all_eq_true.1 List.all_takeWhile ch hmem
    have hrun : Trivia.next (ch :: rest) = .run .blanks (1 + (rest.takeWhile isBlank).length) :=
      Trivia.next_of_isBlank hblank
    have hcount : c.blanksAhead = 1 + (rest.takeWhile isBlank).length := by
      rw [blanksAhead, hrest, List.takeWhile_cons_of_pos hblank, List.length_cons, Nat.add_comm]
    rw [← hrest, ← hcount] at hrun
    obtain ⟨r, rest', rfl, hkind, hfirst, hruns⟩ := h.next_run hd hrun
    refine ⟨[r], rest', rfl, fun r' hr' => ?_, hfirst, hruns⟩
    obtain rfl := List.mem_singleton.1 hr'
    rw [PlacedRun.isComment, hkind]
    rfl

/-- The rest of a line is passed without a comment. -/
theorem skipLineRest {b : Bool} {e : Cursor} (h : c.RunsTo rs d)
    (hd : Trivia.next d.ahead = .absent) (hskip : Cursor.skipLineRest c = .ok b e) :
    ∃ passed rest, rs = passed ++ rest ∧ (∀ r ∈ passed, r.isComment = false) ∧
      c.RunsTo passed e ∧ e.RunsTo rest d := by
  obtain ⟨passed, rest, hrs, hpassed, hfirst, hrest⟩ := h.skipBlanks hd
  simp only [Cursor.skipLineRest] at hskip
  split at hskip
  · next n hrun =>
    cases hskip
    obtain ⟨r, rest', rfl, hkind, hbreak, hruns⟩ := hrest.next_run hd hrun
    refine ⟨passed ++ [r], rest', by simp [hrs], fun r' hr' => ?_, hfirst.append hbreak, hruns⟩
    rcases List.mem_append.1 hr' with hr' | hr'
    · exact hpassed r' hr'
    · obtain rfl := List.mem_singleton.1 hr'
      rw [PlacedRun.isComment, hkind]
      rfl
  · cases hskip
  · split at hskip <;> cases hskip
    · exact ⟨passed, rest, hrs, hpassed, hfirst, hrest⟩
    · exact ⟨[], rs, rfl, List.forall_mem_nil _, .nil, h⟩

end RunsTo

/-- Whole runs are runs one after another. -/
theorem exists_runsTo {gap : List Char} (hpass : c.Passes gap d)
    (hruns : Trivia.Runs gap d.ahead) : ∃ rs, c.RunsTo rs d := by
  generalize hrest : d.ahead = rest at hruns
  induction hruns generalizing c with
  | nil =>
    obtain rfl := hpass.right_unique (.refl c)
    exact ⟨[], .nil⟩
  | @cons kind run text rest hrun _ ih =>
    subst hrest
    have hdrop := hpass.drop
    have hfirst := (passes_of_ahead_eq (hpass.ahead.trans (List.append_assoc ..))).1
    obtain ⟨rs, hrs⟩ := ih hdrop rfl
    rw [← List.append_assoc, ← hpass.ahead] at hrun
    exact ⟨_, .cons hrun hfirst hrs⟩

end Cursor

end Lockstep.Source

namespace Lockstep.Tree.Layout

open Source Text

/-! ## Layouts with their trivia -/

mutual

/-- The layout has no part of which only the place is known. -/
def IsKnown : Layout → Prop
  | .token _ => True
  | .node _ parts => AllKnown parts
  | .unknown _ => False

def AllKnown : List Layout → Prop
  | [] => True
  | f :: fs => f.IsKnown ∧ AllKnown fs

end

theorem allKnown_append {fs gs : List Layout} :
    AllKnown (fs ++ gs) ↔ AllKnown fs ∧ AllKnown gs := by
  induction fs with
  | nil => exact (iff_of_eq (true_and _)).symm
  | cons f fs ih => rw [List.cons_append, AllKnown, AllKnown, ih, and_assoc]

mutual

/-- The layout lies between two places, and these are the runs of trivia between its tokens. Of a
part of which only the place is known there is no such list. -/
def Gaps : Layout → Cursor → List PlacedRun → Cursor → Prop
  | .token text, c, rs, d => rs = [] ∧ Layout.Lies (.token text) c d
  | .node extent parts, c, rs, d =>
    Trivia.next c.ahead = .absent ∧ c.offset = extent.start ∧ d.offset = extent.stop.toNat ∧
      AllGaps parts c rs d
  | .unknown _, _, _, _ => False

/-- The layouts lie between two places, with these runs between and in them. -/
def AllGaps : List Layout → Cursor → List PlacedRun → Cursor → Prop
  | [], c, rs, d => rs = [] ∧ d = c
  | f :: fs, c, rs, e =>
    ∃ d inner after, rs = inner ++ after ∧ f.Gaps c inner d ∧ AfterGaps fs d after e

/-- The layouts lie between two places, with these runs before and in them. -/
def AfterGaps : List Layout → Cursor → List PlacedRun → Cursor → Prop
  | [], c, rs, d => rs = [] ∧ d = c
  | f :: fs, c, rs, e =>
    ∃ gap start rest, rs = gap ++ rest ∧ c.RunsTo gap start ∧
      ∃ d inner after, rest = inner ++ after ∧ f.Gaps start inner d ∧ AfterGaps fs d after e

end

variable {f : Layout} {fs gs : List Layout} {c d e : Cursor} {rs rs' : List PlacedRun}

mutual

theorem Gaps.lies : {f : Layout} → {c d : Cursor} → {rs : List PlacedRun} → f.Gaps c rs d →
    f.Lies c d
  | .token _, _, _, _, h => h.2
  | .node _ _, _, _, _, ⟨habsent, hstart, hstop, h⟩ => ⟨habsent, hstart, hstop, h.lieAll⟩

theorem AllGaps.lieAll : {fs : List Layout} → {c d : Cursor} → {rs : List PlacedRun} →
    AllGaps fs c rs d → LieAll fs c d
  | [], _, _, _, h => h.2
  | _ :: _, _, _, _, ⟨d, _, _, _, hf, hfs⟩ => ⟨d, hf.lies, hfs.lieAfter⟩

theorem AfterGaps.lieAfter : {fs : List Layout} → {c d : Cursor} → {rs : List PlacedRun} →
    AfterGaps fs c rs d → LieAfter fs c d
  | [], _, _, _, h => h.2
  | _ :: _, _, _, _, ⟨_, start, _, _, hgap, d, _, _, _, hf, hfs⟩ =>
    ⟨_, start, d, hgap.passes, hgap.runs, hf.lies, hfs.lieAfter⟩

end

mutual

/-- Wherever a known layout lies, there are some runs between its tokens. -/
theorem Lies.exists_gaps : {f : Layout} → {c d : Cursor} → f.IsKnown → f.Lies c d →
    ∃ rs, f.Gaps c rs d
  | .token _, _, _, _, h => ⟨[], rfl, h⟩
  | .node _ _, _, _, hknown, ⟨habsent, hstart, hstop, h⟩ =>
    have ⟨rs, hrs⟩ := h.exists_gaps hknown
    ⟨rs, habsent, hstart, hstop, hrs⟩

theorem LieAll.exists_gaps : {fs : List Layout} → {c d : Cursor} → AllKnown fs →
    LieAll fs c d → ∃ rs, AllGaps fs c rs d
  | [], _, _, _, h => ⟨[], rfl, h⟩
  | _ :: _, _, _, hknown, ⟨d, hf, hfs⟩ =>
    have ⟨_, hinner⟩ := hf.exists_gaps hknown.1
    have ⟨_, hafter⟩ := hfs.exists_gaps hknown.2
    ⟨_, d, _, _, rfl, hinner, hafter⟩

theorem LieAfter.exists_gaps : {fs : List Layout} → {c d : Cursor} → AllKnown fs →
    LieAfter fs c d → ∃ rs, AfterGaps fs c rs d
  | [], _, _, _, h => ⟨[], rfl, h⟩
  | _ :: _, _, _, hknown, ⟨_, start, d, hpass, hruns, hf, hfs⟩ =>
    have ⟨_, hgap⟩ := Cursor.exists_runsTo hpass hruns
    have ⟨_, hinner⟩ := hf.exists_gaps hknown.1
    have ⟨_, hafter⟩ := hfs.exists_gaps hknown.2
    ⟨_, _, start, _, rfl, hgap, d, _, _, rfl, hinner, hafter⟩

end

theorem Lies.le (h : f.Lies c d) : c.offset ≤ d.offset := by
  obtain ⟨text, hpass⟩ := h.passes
  rw [hpass.offset]
  exact Nat.le_add_right _ _

mutual

theorem Gaps.between : {f : Layout} → {c d : Cursor} → {rs : List PlacedRun} → f.Gaps c rs d →
    RunsBetween c.offset d.offset rs
  | .token _, _, _, _, ⟨hrs, h⟩ => hrs ▸ .nil h.le
  | .node _ _, _, _, _, ⟨_, _, _, h⟩ => h.between

theorem AllGaps.between : {fs : List Layout} → {c d : Cursor} → {rs : List PlacedRun} →
    AllGaps fs c rs d → RunsBetween c.offset d.offset rs
  | [], _, _, _, ⟨hrs, h⟩ => hrs ▸ h ▸ .nil (Nat.le_refl _)
  | _ :: _, _, _, _, ⟨_, _, _, hrs, hf, hfs⟩ => hrs ▸ hf.between.append hfs.between

theorem AfterGaps.between : {fs : List Layout} → {c d : Cursor} → {rs : List PlacedRun} →
    AfterGaps fs c rs d → RunsBetween c.offset d.offset rs
  | [], _, _, _, ⟨hrs, h⟩ => hrs ▸ h ▸ .nil (Nat.le_refl _)
  | _ :: _, _, _, _, ⟨_, _, _, hrs, hgap, _, _, _, hrest, hf, hfs⟩ =>
    hrs ▸ hrest ▸ hgap.between.append (hf.between.append hfs.between)

end

theorem AfterGaps.append (h : AfterGaps fs c rs d) (h' : AfterGaps gs d rs' e) :
    AfterGaps (fs ++ gs) c (rs ++ rs') e := by
  induction fs generalizing c rs with
  | nil =>
    obtain ⟨rfl, rfl⟩ := h
    exact h'
  | cons f fs ih =>
    obtain ⟨gap, start, _, rfl, hgap, stop, inner, after, rfl, hf, hfs⟩ := h
    refine ⟨gap, start, inner ++ (after ++ rs'), ?_, hgap, stop, inner, _, rfl, hf, ih hfs⟩
    simp only [List.append_assoc]

theorem AllGaps.append (hne : fs ≠ []) (h : AllGaps fs c rs d) (h' : AfterGaps gs d rs' e) :
    AllGaps (fs ++ gs) c (rs ++ rs') e := by
  cases fs with
  | nil => exact absurd rfl hne
  | cons f fs =>
    obtain ⟨stop, inner, after, rfl, hf, hfs⟩ := h
    exact ⟨stop, inner, _, List.append_assoc .., hf, hfs.append h'⟩

/-- The parts of a node lie where it lies. -/
theorem AfterGaps.open_node {extent : Extent} {parts : List Layout} (hne : parts ≠ [])
    (h : AfterGaps (.node extent parts :: fs) c rs e) : AfterGaps (parts ++ fs) c rs e := by
  obtain ⟨gap, start, _, rfl, hgap, d, inner, after, rfl, ⟨_, _, _, hparts⟩, hfs⟩ := h
  have hall := hparts.append hne hfs
  cases parts with
  | nil => exact absurd rfl hne
  | cons g gs =>
    obtain ⟨stop, inner', after', hrs, hg, hgs⟩ := hall
    exact ⟨gap, start, _, rfl, hgap, stop, inner', after', hrs, hg, hgs⟩

theorem Gaps.offset_eq {x : Extent} (h : f.Gaps c rs d) (hx : f.extent? = some x) :
    c.offset = x.start ∧ d.offset = x.stop.toNat :=
  h.lies.offset_eq hx

theorem Gaps.text_eq (h : f.Gaps c rs d) : d.text = c.text := by
  obtain ⟨_, hpass⟩ := h.lies.passes
  exact hpass.text_eq

/-- The runs of a layout lie in its extent. -/
theorem Gaps.within {x : Extent} {r : PlacedRun} (h : f.Gaps c rs d) (hx : f.extent? = some x)
    (hr : r ∈ rs) : r.Within x := by
  obtain ⟨hstart, hstop⟩ := h.offset_eq hx
  have := h.between.mem r hr
  exact ⟨by omega, by omega⟩

end Lockstep.Tree.Layout

namespace Lockstep.Render

open Source Lockstep.Tree

/-! ## Layouts ahead -/

/-- The layouts lie ahead of a place of that kind, with these runs before and in them. -/
def Stance.Gaps : Stance → List Layout → Cursor → List PlacedRun → Cursor → Prop
  | .ready => Layout.AllGaps
  | .done | .loose => Layout.AfterGaps

namespace Stance.Gaps

variable {a : Stance} {fs : List Layout} {c e : Cursor} {rs : List PlacedRun}

/-- The layouts begin after the runs that are left before them. -/
theorem exists_start (hne : fs ≠ []) (h : a.Gaps fs c rs e) :
    ∃ gap start rest, rs = gap ++ rest ∧ c.RunsTo gap start ∧
      Trivia.next start.ahead = .absent ∧ Layout.AllGaps fs start rest e := by
  obtain ⟨f, fs, rfl⟩ := List.exists_cons_of_ne_nil hne
  cases a with
  | ready =>
    obtain ⟨d, inner, after, rfl, hf, hfs⟩ := h
    exact ⟨[], c, _, rfl, .nil, hf.lies.absent, d, inner, after, rfl, hf, hfs⟩
  | done | loose =>
    obtain ⟨gap, start, _, rfl, hgap, d, inner, after, rfl, hf, hfs⟩ := h
    exact ⟨gap, start, _, rfl, hgap, hf.lies.absent, d, inner, after, rfl, hf, hfs⟩

theorem of_start {gap rest : List PlacedRun} {start : Cursor} (ha : a ≠ .ready) (hne : fs ≠ [])
    (hgap : c.RunsTo gap start) (h : Layout.AllGaps fs start rest e) :
    a.Gaps fs c (gap ++ rest) e := by
  obtain ⟨f, fs, rfl⟩ := List.exists_cons_of_ne_nil hne
  obtain ⟨d, inner, after, rfl, hf, hfs⟩ := h
  cases a with
  | ready => exact absurd rfl ha
  | done | loose => exact ⟨gap, start, _, rfl, hgap, d, inner, after, rfl, hf, hfs⟩

end Stance.Gaps

end Lockstep.Render
