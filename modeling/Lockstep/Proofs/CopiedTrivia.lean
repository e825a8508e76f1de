import Lockstep.Proofs.Gaps

/-!
# What a script writes of the trivia

What a script writes is texts of its own and runs of trivia from the source. `Carries` says of a
script that walks layouts that the runs between their tokens are among the latter, as far as they
are asked for (`Demand`), and that the first copies of them come in the order of the source. As for
`Walks` there is one lemma for each step and for each way of putting scripts together. A script that
passes trivia without a copy carries what is not asked for, and nothing else.

- `Piece`: a part of an output.
- `Carried`: how the copied runs answer a demand.
- `Carries`: what a script copies of the layouts that it walks.
- `Carries.head`, `Carries.tail`: a part of a node of which nothing is asked for.
- `Carries.deferred`: a layout that is passed first and rendered later.
-/

namespace Lockstep.Render

open Output Source Target Text Lockstep.Tree

/-! ## Pieces and demands -/

/-- A part of an output: a text of its own, or a run of trivia of the source. -/
inductive Piece where
  | fresh (text : List Char)
  | copied (run : PlacedRun)
  deriving DecidableEq, Repr

namespace Piece

def text : Piece → List Char
  | .fresh text => text
  | .copied run => run.text

def run? : Piece → Option PlacedRun
  | .fresh _ => none
  | .copied run => some run

end Piece

/-- Which runs of trivia are asked for. -/
structure Demand where
  /-- The run has to be copied, … -/
  kept : PlacedRun → Prop
  /-- … and before those that come after it in the source. -/
  inPlace : PlacedRun → Prop
  isComment_of_kept : ∀ r, kept r → r.isComment = true

namespace Demand

/-- Nothing is asked for. -/
def nothing : Demand := ⟨fun _ => False, fun _ => False, nofun⟩

/-- Nothing is asked for of the text that the extent covers. -/
def Spares (D : Demand) (x : Extent) : Prop := ∀ r : PlacedRun, r.Within x → ¬D.kept r

end Demand

variable {D D' : Demand} {a b : Nat} {rs rs' copies copies' : List PlacedRun}

/-- The copies answer the demand for the runs, and none of them is from the bound on. -/
structure Carried (D : Demand) (bound : Nat) (rs copies : List PlacedRun) : Prop where
  behind : ∀ r ∈ copies, r.start < bound
  complete : ∀ r ∈ rs, D.kept r → r ∈ copies
  ordered : ∀ pre r post, copies = pre ++ r :: post →
    ∀ r' ∈ rs, D.kept r' → D.inPlace r' → r'.start < r.start → r' ∈ pre

namespace Carried

/-- Nothing is asked for, and copies from further up do no harm. -/
theorem of_behind (h : ∀ r ∈ copies, r.start < b) : Carried D b [] copies := ⟨h, nofun, nofun⟩

theorem none (b : Nat) (h : ∀ r ∈ rs, ¬D.kept r) : Carried D b rs [] where
  behind := nofun
  complete r hr hkept := absurd hkept (h r hr)
  ordered _ _ _ heq := by simp at heq

theorem imp (h : Carried D b rs copies) (hkept : ∀ r ∈ rs, D'.kept r → D.kept r)
    (hplace : ∀ r ∈ rs, D'.kept r → D'.inPlace r → D.inPlace r) : Carried D' b rs copies where
  behind := h.behind
  complete r hr hr' := h.complete r hr (hkept r hr hr')
  ordered pre r post heq r' hr' hkept' hplace' hlt :=
    h.ordered pre r post heq r' hr' (hkept r' hr' hkept') (hplace r' hr' hkept' hplace') hlt

theorem weaken (h : Carried D a rs copies) (hab : a ≤ b) : Carried D b rs copies :=
  ⟨fun r hr => Nat.lt_of_lt_of_le (h.behind r hr) hab, h.complete, h.ordered⟩

theorem append (h : Carried D a rs copies) (h' : Carried D b rs' copies') (hab : a ≤ b)
    (hrs' : ∀ r ∈ rs', a ≤ r.start) : Carried D b (rs ++ rs') (copies ++ copies') where
  behind r hr := by
    rcases List.mem_append.1 hr with hr | hr
    · exact Nat.lt_of_lt_of_le (h.behind r hr) hab
    · exact h'.behind r hr
  complete r hr hkept := by
    rcases List.mem_append.1 hr with hr | hr
    · exact List.mem_append_left _ (h.complete r hr hkept)
    · exact List.mem_append_right _ (h'.complete r hr hkept)
  ordered pre r post heq r' hr' hkept hplace hlt := by
    -- a run of the first part is copied by then, whichever part `r` is a copy of
    obtain ⟨mid, rfl, hmid⟩ | ⟨mid, hmid, hpost⟩ := List.append_eq_append_iff.1 heq
    · rcases List.mem_append.1 hr' with hr' | hr'
      · exact List.mem_append_left _ (h.complete r' hr' hkept)
      · exact List.mem_append_right _ (h'.ordered mid r post hmid r' hr' hkept hplace hlt)
    · cases mid with
      | nil =>
        rw [List.append_nil] at hmid
        subst hmid
        rcases List.mem_append.1 hr' with hr' | hr'
        · exact h.complete r' hr' hkept
        · exact absurd (h'.ordered [] r post hpost.symm r' hr' hkept hplace hlt) List.not_mem_nil
      | cons first mid =>
        obtain ⟨rfl, -⟩ := List.cons.inj hpost
        rcases List.mem_append.1 hr' with hr' | hr'
        · exact h.ordered pre r mid hmid r' hr' hkept hplace hlt
        · have hr : r.start < a := h.behind r (hmid ▸ List.mem_append_right _ List.mem_cons_self)
          have := hrs' r' hr'
          omega

/-- Runs that are not asked for in their place may be copied after those that follow them. -/
theorem late (h : Carried D b rs copies) (h' : Carried D b rs' copies')
    (hplace : ∀ r ∈ rs', ¬D.inPlace r) : Carried D b (rs' ++ rs) (copies ++ copies') where
  behind r hr := by
    rcases List.mem_append.1 hr with hr | hr
    · exact h.behind r hr
    · exact h'.behind r hr
  complete r hr hkept := by
    rcases List.mem_append.1 hr with hr | hr
    · exact List.mem_append_right _ (h'.complete r hr hkept)
    · exact List.mem_append_left _ (h.complete r hr hkept)
  ordered pre r post heq r' hr' hkept hinPlace hlt := by
    rcases List.mem_append.1 hr' with hr' | hr'
    · exact absurd hinPlace (hplace r' hr')
    obtain ⟨mid, rfl, hmid⟩ | ⟨mid, hmid, hpost⟩ := List.append_eq_append_iff.1 heq
    · exact List.mem_append_left _ (h.complete r' hr' hkept)
    · cases mid with
      | nil =>
        rw [List.append_nil] at hmid
        exact hmid ▸ h.complete r' hr' hkept
      | cons first mid =>
        obtain ⟨rfl, -⟩ := List.cons.inj hpost
        exact h.ordered pre r mid hmid r' hr' hkept hinPlace hlt

/-- Runs that are copied as they come. -/
theorem all (h : RunsBetween a b rs) (hsorted : rs.Pairwise (·.start < ·.start)) :
    Carried D b rs rs where
  behind r hr := by
    have := h.mem r hr
    omega
  complete r hr _ := hr
  ordered pre r post heq r' hr' _ _ hlt := by
    rw [heq] at hr' hsorted
    rcases List.mem_append.1 hr' with hr' | hr'
    · exact hr'
    · have hpost := (List.pairwise_cons.1 (List.pairwise_append.1 hsorted).2.1).1
      rcases List.mem_cons.1 hr' with rfl | hr'
      · omega
      · have := hpost r' hr'
        omega

end Carried

/-! ## Runs of scripts -/

variable {ctx mid after : Context}

/-- On the way from one state to another the runs have been passed, and copied as is asked for. -/
structure Kept (D : Demand) (rs : List PlacedRun) (ctx after : Context) : Prop where
  text_eq : after.cursor.text = ctx.cursor.text
  between : RunsBetween ctx.cursor.offset after.cursor.offset rs
  written : ∃ pieces : List Piece, after.writer = ctx.writer.added (pieces.flatMap Piece.text) ∧
    Carried D after.cursor.offset rs (pieces.filterMap Piece.run?)

namespace Kept

theorem refl (ctx : Context) : Kept D [] ctx ctx where
  text_eq := rfl
  between := .nil (Nat.le_refl _)
  written := ⟨[], (Writer.added_nil _).symm, .of_behind nofun⟩

theorem trans (h : Kept D rs ctx mid) (h' : Kept D rs' mid after) :
    Kept D (rs ++ rs') ctx after where
  text_eq := h'.text_eq.trans h.text_eq
  between := h.between.append h'.between
  written := by
    obtain ⟨pieces, hwriter, hcarried⟩ := h.written
    obtain ⟨pieces', hwriter', hcarried'⟩ := h'.written
    refine ⟨pieces ++ pieces', ?_, ?_⟩
    · rw [List.flatMap_append, Writer.added_append, ← hwriter, hwriter']
    · rw [List.filterMap_append]
      exact hcarried.append hcarried' h'.between.le fun r hr => (h'.between.mem r hr).1

theorem imp (h : Kept D rs ctx after) (hkept : ∀ r ∈ rs, D'.kept r → D.kept r)
    (hplace : ∀ r ∈ rs, D'.kept r → D'.inPlace r → D.inPlace r) : Kept D' rs ctx after where
  text_eq := h.text_eq
  between := h.between
  written := by
    obtain ⟨pieces, hwriter, hcarried⟩ := h.written
    exact ⟨pieces, hwriter, hcarried.imp hkept hplace⟩

/-- Of runs that nobody asks for it does not matter what becomes of them. -/
theorem of_nothing (h : Kept .nothing rs ctx after) (hrs : ∀ r ∈ rs, ¬D.kept r) :
    Kept D rs ctx after :=
  h.imp (fun r hr hkept => absurd hkept (hrs r hr)) fun r hr hkept => absurd hkept (hrs r hr)

/-- A text is written for a part of the source of which nothing is asked for. -/
theorem replaced {text : List Char} {d : Cursor} (htext : d.text = ctx.cursor.text)
    (hbetween : RunsBetween ctx.cursor.offset d.offset rs) (hrs : ∀ r ∈ rs, ¬D.kept r) :
    Kept D rs ctx (ctx.moved d text) where
  text_eq := htext
  between := hbetween
  written := by
    refine ⟨[.fresh text], ?_, .none _ hrs⟩
    rw [List.flatMap_singleton]
    rfl

/-- A text is written for a part of the source that holds no trivia. -/
theorem fresh {token text : List Char} {d : Cursor} (hpass : ctx.cursor.Passes token d) :
    Kept D [] ctx (ctx.moved d text) :=
  replaced hpass.text_eq (.nil (by rw [hpass.offset]; exact Nat.le_add_right _ _)) nofun

theorem copied {d : Cursor} (h : ctx.cursor.RunsTo rs d) :
    Kept D rs ctx (ctx.moved d (rs.flatMap PlacedRun.text)) where
  text_eq := h.passes.text_eq
  between := h.between
  written := by
    refine ⟨rs.map .copied, ?_, ?_⟩
    · rw [List.flatMap_map]
      rfl
    · have hruns : (rs.map Piece.copied).filterMap Piece.run? = rs := by
        rw [List.filterMap_map]
        exact List.filterMap_some
      rw [hruns]
      exact .all h.between h.sorted

/-- Runs that are passed and not copied. -/
theorem dropped {text : List Char} {d : Cursor} (h : ctx.cursor.RunsTo rs d)
    (hrs : ∀ r ∈ rs, ¬D.kept r) : Kept D rs ctx (ctx.moved d text) :=
  replaced h.passes.text_eq h.between hrs

theorem dropped_of_not_comment {text : List Char} {d : Cursor} (h : ctx.cursor.RunsTo rs d)
    (hrs : ∀ r ∈ rs, r.isComment = false) : Kept D rs ctx (ctx.moved d text) :=
  dropped h fun r hr hkept => by
    have hcomment := D.isComment_of_kept r hkept
    rw [hrs r hr] at hcomment
    cases hcomment

/-- Runs that are passed for a text, and copied after those that follow them. -/
theorem late {text : List Char} {d : Cursor} (h : Kept D rs (ctx.moved d text) mid)
    (htext : d.text = ctx.cursor.text) (hbetween : RunsBetween ctx.cursor.offset d.offset rs')
    (hcursor : after.cursor = mid.cursor)
    (hwritten : ∃ pieces : List Piece, after.writer = mid.writer.added (pieces.flatMap Piece.text) ∧
      Carried D mid.cursor.offset rs' (pieces.filterMap Piece.run?))
    (hplace : ∀ r ∈ rs', ¬D.inPlace r) : Kept D (rs' ++ rs) ctx after where
  text_eq := by rw [hcursor, h.text_eq, Context.cursor_moved, htext]
  between := hcursor ▸ hbetween.append h.between
  written := by
    obtain ⟨pieces, hwriter, hcarried⟩ := h.written
    obtain ⟨pieces', hwriter', hcarried'⟩ := hwritten
    rw [hwriter, ← Writer.added_append] at hwriter'
    refine ⟨.fresh text :: (pieces ++ pieces'), ?_, ?_⟩
    · rw [hwriter', List.flatMap_cons, List.flatMap_append]
      exact (Writer.added_append ..).symm
    · rw [hcursor, List.filterMap_cons_none rfl, List.filterMap_append]
      exact hcarried.late hcarried' hplace

end Kept

/-- The layout lies in the text before a place of it. -/
def LiesBehind (f : Layout) (c : Cursor) : Prop :=
  ∃ start rs stop, start.text = c.text ∧ f.Gaps start rs stop ∧ stop.offset ≤ c.offset

theorem LiesBehind.kept {f : Layout} (h : LiesBehind f ctx.cursor) (hkept : Kept D rs ctx after) :
    LiesBehind f after.cursor := by
  obtain ⟨start, rs, stop, htext, hf, hle⟩ := h
  exact ⟨start, rs, stop, htext.trans hkept.text_eq.symm, hf, Nat.le_trans hle hkept.between.le⟩

/-- The script copies of the layouts that it walks what is asked for. -/
structure Carries (D : Demand) (known : List Layout) (a : Stance) (xs : Script)
    (fs : List Layout) (b : Stance) : Prop where
  ne_nil : a ≠ .done → b = .done → fs ≠ []
  run : ∀ {rest : List Layout} {rs : List PlacedRun} {e : Cursor} {ctx after : Context},
    (b ≠ .done → rest ≠ []) → (∀ f ∈ known, LiesBehind f ctx.cursor) →
    a.Gaps (fs ++ rest) ctx.cursor rs e → Step.runAll xs ctx = .ok () after →
    ∃ passed ahead, rs = passed ++ ahead ∧ b.Gaps rest after.cursor ahead e ∧
      Kept D passed ctx after

namespace Carries

variable {known fs gs : List Layout} {f g : Layout} {a b c : Stance} {xs ys : Script}
  {extent x : Extent}

/-! ## Sequences -/

theorem nil : Carries D known a [] [] a where
  ne_nil ha hdone := absurd hdone ha
  run _ _ hgaps hrun := by
    cases runAll_nil_ok.1 hrun
    exact ⟨[], _, rfl, hgaps, .refl _⟩

theorem append (h : Carries D known a xs fs b) (h' : Carries D known b ys gs c) :
    Carries D known a (xs ++ ys) (fs ++ gs) c where
  ne_nil ha hc hnil := by
    obtain ⟨hfs, hgs⟩ := List.append_eq_nil_iff.1 hnil
    by_cases hb : b = .done
    · exact h.ne_nil ha hb hfs
    · exact h'.ne_nil hb hc hgs
  run {rest rs e ctx after} hrest hknown hgaps hrun := by
    obtain ⟨mid, hrun₁, hrun₂⟩ := runAll_append_ok.1 hrun
    rw [List.append_assoc] at hgaps
    have hmid : b ≠ .done → gs ++ rest ≠ [] := by
      intro hb hnil
      obtain ⟨hgs, hrest'⟩ := List.append_eq_nil_iff.1 hnil
      by_cases hc : c = .done
      · exact h'.ne_nil hb hc hgs
      · exact hrest hc hrest'
    obtain ⟨passed, _, rfl, hgaps₂, hkept⟩ := h.run hmid hknown hgaps hrun₁
    have hknown₂ : ∀ f ∈ known, LiesBehind f mid.cursor := fun f hf => (hknown f hf).kept hkept
    obtain ⟨passed', ahead, rfl, hgaps₃, hkept'⟩ := h'.run hrest hknown₂ hgaps₂ hrun₂
    exact ⟨passed ++ passed', ahead, (List.append_assoc ..).symm, hgaps₃, hkept.trans hkept'⟩

theorem cons {step : Step} (h : Carries D known a [step] fs b) (h' : Carries D known b xs gs c) :
    Carries D known a (step :: xs) (fs ++ gs) c := h.append h'

/-- A script that passes one layout ends just after it. -/
theorem run_single (h : Carries D known .ready xs [f] .done) {start stop : Cursor}
    {rs : List PlacedRun} {ctx after : Context} (hknown : ∀ f ∈ known, LiesBehind f ctx.cursor)
    (hstart : ctx.cursor = start) (hf : f.Gaps start rs stop)
    (hrun : Step.runAll xs ctx = .ok () after) : after.cursor = stop ∧ Kept D rs ctx after := by
  subst hstart
  have hall : Stance.ready.Gaps ([f] ++ []) ctx.cursor rs stop :=
    ⟨stop, rs, [], (List.append_nil _).symm, hf, rfl, rfl⟩
  obtain ⟨passed, ahead, rfl, ⟨rfl, hstop⟩, hkept⟩ := h.run (absurd rfl) hknown hall hrun
  rw [List.append_nil]
  exact ⟨hstop.symm, hkept⟩

/-- What has been passed lies behind, and may be visited again. -/
theorem append_known (h : Carries D known .ready xs [f] .done)
    (h' : Carries D (f :: known) .done ys gs c) :
    Carries D known .ready (xs ++ ys) (f :: gs) c where
  ne_nil _ _ := List.cons_ne_nil _ _
  run {rest rs e ctx after} hrest hknown hgaps hrun := by
    obtain ⟨mid, hrun₁, hrun₂⟩ := runAll_append_ok.1 hrun
    obtain ⟨stop, inner, _, rfl, hf, hafter⟩ := hgaps
    obtain ⟨rfl, hkept⟩ := h.run_single hknown rfl hf hrun₁
    have hknown₂ : ∀ g ∈ f :: known, LiesBehind g mid.cursor := by
      refine List.forall_mem_cons.2 ⟨?_, fun g hg => (hknown g hg).kept hkept⟩
      exact ⟨ctx.cursor, inner, mid.cursor, hkept.text_eq.symm, hf, Nat.le_refl _⟩
    obtain ⟨passed, ahead, rfl, hgaps', hkept'⟩ :=
      h'.run (a := .done) hrest hknown₂ hafter hrun₂
    exact ⟨inner ++ passed, ahead, (List.append_assoc ..).symm, hgaps', hkept.trans hkept'⟩

/-- The parts of a node are passed where it lies. -/
theorem open_node (hne : fs ≠ []) (h : Carries D known .ready xs (f :: (fs ++ gs)) b) :
    Carries D known .ready xs (f :: .node extent fs :: gs) b where
  ne_nil _ _ := List.cons_ne_nil _ _
  run {rest rs e ctx after} hrest hknown hgaps hrun := by
    obtain ⟨stop, inner, outer, rfl, hf, hafter⟩ := hgaps
    have hopen : Layout.AfterGaps (fs ++ gs ++ rest) stop outer e := by
      rw [List.append_assoc]
      exact Layout.AfterGaps.open_node hne hafter
    exact h.run hrest hknown ⟨stop, inner, outer, rfl, hf, hopen⟩ hrun

/-- Of a script that never comes to its end there is nothing to show. -/
theorem of_not_ok (hne : fs ≠ [])
    (h : ∀ ctx after : Context, Step.runAll xs ctx ≠ .ok () after) : Carries D known a xs fs b where
  ne_nil _ _ := hne
  run _ _ _ hrun := absurd hrun (h _ _)

/-! ## Nodes -/

theorem refuse {e : RenderError} : Carries D known .ready [.refuse e] [f] b :=
  of_not_ok (List.cons_ne_nil _ _) fun _ _ hrun => nomatch runAll_singleton_ok.1 hrun

theorem halt {e : RenderError} : Carries D known a [.refuse e] [] a where
  ne_nil ha hdone := absurd hdone ha
  run _ _ _ hrun := nomatch runAll_singleton_ok.1 hrun

theorem entered {target : Target} {kind : Kind} (h : Carries D known .ready xs [f] b) :
    Carries D known .ready (Script.node target kind extent xs) [f] b where
  ne_nil := h.ne_nil
  run hrest hknown hgaps hrun := h.run hrest hknown hgaps (runAll_node_ok hrun)

theorem parts (hne : fs ≠ []) (h : Carries D known .ready xs fs b) :
    Carries D known .ready xs [.node extent fs] b where
  ne_nil _ _ := List.cons_ne_nil _ _
  run hrest hknown hgaps hrun := by
    obtain ⟨stop, inner, after, rfl, ⟨_, _, _, hparts⟩, hafter⟩ := hgaps
    exact h.run (a := .ready) hrest hknown (hparts.append hne hafter) hrun

/-! ## Steps -/

theorem swap {token text : String} :
    Carries D known .ready [.swap token text] [.token token] .done where
  ne_nil _ _ := List.cons_ne_nil _ _
  run {rest rs e ctx after} _ _ hgaps hrun := by
    obtain ⟨stop, _, ahead, rfl, ⟨rfl, hlies⟩, hafter⟩ := hgaps
    obtain ⟨cursor, hpass, rfl⟩ := swap_ok (runAll_singleton_ok.1 hrun)
    obtain rfl := hpass.right_unique hlies.2
    exact ⟨[], ahead, rfl, hafter, .fresh hpass⟩

theorem emit {text : String} : Carries D known a [.emit text] [] a where
  ne_nil ha hdone := absurd hdone ha
  run _ _ hgaps hrun := by
    cases write_ok (runAll_singleton_ok.1 hrun)
    exact ⟨[], _, rfl, hgaps, .fresh (.refl _)⟩

theorem require {name : String} : Carries D known a [.require name] [] a where
  ne_nil ha hdone := absurd hdone ha
  run {rest rs e ctx after} _ _ hgaps hrun := by
    cases require_ok (runAll_singleton_ok.1 hrun)
    have hsame : Kept D [] ctx ctx := .refl ctx
    exact ⟨[], _, rfl, hgaps, hsame.text_eq, hsame.between, hsame.written⟩

theorem copyTrivia : Carries D known a [.copyTrivia] [] .ready where
  ne_nil _ := nofun
  run hrest _ hgaps hrun := by
    obtain ⟨gap, start, ahead, rfl, hgap, hstart, hall⟩ := hgaps.exists_start (hrest nofun)
    obtain ⟨text, cursor, hpass, hruns, habsent, rfl⟩ :=
      Step.run_copyTrivia_ok (runAll_singleton_ok.1 hrun)
    obtain ⟨rfl, rfl⟩ := hgap.unique hstart hpass hruns habsent
    exact ⟨gap, ahead, rfl, hall, .copied hgap⟩

/-- Trivia of which nothing is asked for are passed without a copy. -/
theorem skipTrivia : Carries .nothing known a [.skipTrivia] [] .ready where
  ne_nil _ := nofun
  run hrest _ hgaps hrun := by
    obtain ⟨gap, start, ahead, rfl, hgap, hstart, hall⟩ := hgaps.exists_start (hrest nofun)
    obtain ⟨text, cursor, hpass, hruns, habsent, rfl⟩ :=
      skipTriviaUntil_ok (runAll_singleton_ok.1 hrun)
    obtain ⟨rfl, rfl⟩ := hgap.unique hstart hpass hruns (habsent rfl)
    exact ⟨gap, ahead, rfl, hall, .dropped hgap fun _ _ => id⟩

theorem skipBlanks : Carries D known a [.skipBlanks] [] .loose where
  ne_nil _ := nofun
  run hrest _ hgaps hrun := by
    obtain ⟨gap, start, ahead, rfl, hgap, hstart, hall⟩ := hgaps.exists_start (hrest nofun)
    cases skipBlanks_eq (runAll_singleton_ok.1 hrun)
    obtain ⟨passed, left, rfl, hpassed, hblanks, hleft⟩ := hgap.skipBlanks hstart
    exact ⟨passed, left ++ ahead, List.append_assoc ..,
      .of_start Stance.loose_ne_ready (hrest nofun) hleft hall,
      .dropped_of_not_comment hblanks hpassed⟩

theorem skipLineRest : Carries D known a [.skipLineRest] [] .loose where
  ne_nil _ := nofun
  run hrest _ hgaps hrun := by
    obtain ⟨gap, start, ahead, rfl, hgap, hstart, hall⟩ := hgaps.exists_start (hrest nofun)
    obtain ⟨_, _, hline, hdone⟩ := bind_ok.1 (runAll_singleton_ok.1 hrun)
    cases hdone
    obtain ⟨cursor, hskip, rfl⟩ := walk_ok hline
    obtain ⟨passed, left, rfl, hpassed, hline, hleft⟩ := hgap.skipLineRest hstart hskip
    exact ⟨passed, left ++ ahead, List.append_assoc ..,
      .of_start Stance.loose_ne_ready (hrest nofun) hleft hall,
      .dropped_of_not_comment hline hpassed⟩

/-- A modifier takes blanks along if it is dropped. -/
theorem modifier {target : Target} {word : ModifierWord} :
    Carries D known .ready [.modifier target word extent] [.token word.token] .loose where
  ne_nil _ := nofun
  run {rest rs e ctx after} hrest _ hgaps hrun := by
    obtain ⟨stop, _, ahead, rfl, ⟨rfl, hlies⟩, hafter⟩ := hgaps
    obtain ⟨mid, text, hpass, hcases⟩ := swapModifier_cases (runAll_singleton_ok.1 hrun)
    obtain rfl := hpass.right_unique hlies.2
    rcases hcases with rfl | rfl
    · exact ⟨[], ahead, rfl, hafter, .fresh hpass⟩
    · obtain ⟨gap, start, ahead, rfl, hgap, hstart, hall⟩ :=
        Stance.Gaps.exists_start (a := .done) (hrest nofun) hafter
      obtain ⟨passed, left, rfl, hpassed, hblanks, hleft⟩ := hgap.skipBlanks hstart
      have htoken : Kept D [] ctx (ctx.moved mid text) := .fresh hpass
      have hskip : Kept D passed (ctx.moved mid text)
          ((ctx.moved mid text).moved (mid.pass mid.blanksAhead) []) :=
        .dropped_of_not_comment hblanks hpassed
      rw [Context.moved_moved, List.append_nil] at hskip
      exact ⟨passed, left ++ ahead, List.append_assoc ..,
        .of_start (a := .loose) Stance.loose_ne_ready (hrest nofun) hleft hall,
        htoken.trans hskip⟩

/-- An operator is passed with the trivia on both sides of it, and both are copied. -/
theorem operator {token text : String} {balanced spaced : Bool} :
    Carries D known a [.operator token text balanced spaced] [.token token] .ready where
  ne_nil _ := nofun
  run {rest rs e ctx after} hrest _ hgaps hrun := by
    obtain ⟨gap, start, _, rfl, hgap, hstart, stop, _, ahead, rfl, ⟨rfl, hlies⟩, hafter⟩ :=
      hgaps.exists_start (List.cons_ne_nil _ _)
    obtain ⟨gap', start', ahead, rfl, hgap', hstart', hall⟩ :=
      Stance.Gaps.exists_start (a := .done) (hrest nofun) hafter
    obtain ⟨cursor, move, rfl⟩ := swapOperator_ok (runAll_singleton_ok.1 hrun)
    obtain ⟨hbefore, hstart⟩ :=
      hgap.unique hstart move.passes_before move.runs_before move.absent_before
    have htoken := hstart ▸ move.passes_token
    have hstop := htoken.right_unique hlies.2
    obtain ⟨hafter, rfl⟩ := hgap'.unique hstart' (hstop ▸ move.passes_after) move.runs_after
      move.absent_after
    have hcopy : Kept D gap ctx (ctx.moved start (gap.flatMap PlacedRun.text)) := .copied hgap
    have hswap (ctx : Context) (hctx : ctx.cursor = start) : Kept D [] ctx
        (ctx.moved stop (pad (move.padsBefore balanced spaced) ++ text.toList)) :=
      .fresh (hctx ▸ hlies.2)
    have hpad (ctx : Context) : Kept D [] ctx
        (ctx.moved ctx.cursor (pad (move.padsAfter balanced spaced))) := .fresh (.refl _)
    have hkept := ((hcopy.trans (hswap _ rfl)).trans (.copied hgap')).trans (hpad _)
    refine ⟨gap ++ gap', ahead, by rw [List.append_assoc, List.nil_append], hall, ?_⟩
    simpa only [Context.moved_moved, Context.cursor_moved, OperatorMove.written, hbefore, hafter,
      List.append_assoc, List.append_nil] using hkept

/-! ## Steps of steps -/

theorem loosen (h : Carries D known a xs fs .done) : Carries D known a xs fs .loose where
  ne_nil _ := nofun
  run _ hknown hgaps hrun := h.run (absurd rfl) hknown hgaps hrun

theorem within {declaration : Declaration} (h : Carries D known a xs fs b) :
    Carries D known a [.within declaration xs] fs b where
  ne_nil := h.ne_nil
  run {rest rs e ctx after} hrest hknown hgaps hrun := by
    obtain ⟨mid, hsteps, rfl⟩ := inDeclaration_ok (runAll_singleton_ok.1 hrun)
    have hinside : a.Gaps (fs ++ rest)
        ({ ctx with declaration := some declaration } : Context).cursor rs e := hgaps
    obtain ⟨passed, ahead, hrs, hahead, hkept⟩ := h.run hrest (by exact hknown) hinside hsteps
    exact ⟨passed, ahead, hrs, hahead, hkept.text_eq, hkept.between, hkept.written⟩

theorem times {n : Nat} (h : Carries D known a xs fs a) :
    Carries D known a [.times n xs] (List.replicate n fs).flatten a where
  ne_nil ha hdone := absurd hdone ha
  run {rest rs e ctx after} hrest hknown hgaps hrun := by
    replace hrun : repeated (Step.runAll xs) n ctx = .ok () after := runAll_singleton_ok.1 hrun
    induction n generalizing ctx rs with
    | zero =>
      cases repeated_zero_ok.1 hrun
      exact ⟨[], rs, rfl, hgaps, .refl _⟩
    | succ n ih =>
      obtain ⟨mid, hfirst, hmore⟩ := repeated_succ_ok.1 hrun
      rw [List.replicate_succ, List.flatten_cons, List.append_assoc] at hgaps
      have hrest' : a ≠ .done → (List.replicate n fs).flatten ++ rest ≠ [] :=
        fun ha => List.append_ne_nil_of_right_ne_nil _ (hrest ha)
      obtain ⟨passed, _, rfl, hgaps', hkept⟩ := h.run hrest' hknown hgaps hfirst
      obtain ⟨passed', ahead, rfl, hahead, hkept'⟩ :=
        ih (fun f hf => (hknown f hf).kept hkept) hgaps' hmore
      exact ⟨passed ++ passed', ahead, (List.append_assoc ..).symm, hahead, hkept.trans hkept'⟩

/-- A layout of which nothing is asked for is replaced as a whole. -/
theorem replace {text : String} (hx : f.extent? = some x) (hspares : D.Spares x) :
    Carries D known .ready [.replace x text] [f] .done where
  ne_nil _ _ := List.cons_ne_nil _ _
  run {rest rs e ctx after} _ _ hgaps hrun := by
    obtain ⟨stop, inner, ahead, rfl, hf, hafter⟩ := hgaps
    obtain ⟨hstart, hstop⟩ := hf.offset_eq hx
    obtain ⟨covered, hpass⟩ := hf.lies.passes
    obtain rfl :=
      replaceExtent_ok_of_passes (runAll_singleton_ok.1 hrun) hpass hstart hstop
    exact ⟨inner, ahead, rfl, hafter,
      .replaced hf.text_eq hf.between fun r hr => hspares r (hf.within hx hr)⟩

/-! ## Parts of nodes of which nothing is asked for -/

/-- What comes before the node inside is not asked for. -/
theorem head (hfs : ∀ known, Carries .nothing known .ready xs fs .ready) (hne : fs ≠ [])
    (hx : f.extent? = some x) (hspares : D.Spares ⟨extent.pos, x.pos⟩)
    (h : Carries D known .ready ys (f :: gs) .done) :
    Carries D known .ready (xs ++ ys) [.node extent (fs ++ f :: gs)] .done where
  ne_nil _ _ := List.cons_ne_nil _ _
  run {rest rs e ctx after} hrest hknown hgaps hrun := by
    obtain ⟨mid, hrun₁, hrun₂⟩ := runAll_append_ok.1 hrun
    obtain ⟨stop, inner, ahead, rfl, ⟨_, hstart, _, hparts⟩, hafter⟩ := hgaps
    have hall := hparts.append (List.append_ne_nil_of_left_ne_nil hne _) hafter
    rw [List.append_assoc] at hall
    obtain ⟨passed, _, hrs, hgaps', hkept⟩ :=
      (hfs known).run (a := .ready) (fun _ => List.cons_ne_nil _ _) hknown hall hrun₁
    have hoffset : mid.cursor.offset = x.start := by
      obtain ⟨_, _, _, _, hf, _⟩ := id hgaps'
      exact (hf.offset_eq hx).1
    have hpassed : ∀ r ∈ passed, ¬D.kept r := fun r hr => by
      obtain ⟨hge, -, hle⟩ := hkept.between.mem r hr
      exact hspares r ⟨Nat.le_trans (Nat.le_of_eq hstart.symm) hge,
        Nat.le_trans hle (Nat.le_of_eq hoffset)⟩
    obtain ⟨passed', ahead', rfl, hahead, hkept'⟩ :=
      h.run hrest (fun f hf => (hknown f hf).kept hkept) hgaps' hrun₂
    rw [hrs]
    exact ⟨passed ++ passed', ahead', (List.append_assoc ..).symm, hahead,
      (hkept.of_nothing hpassed).trans hkept'⟩

/-- What comes after the node inside is not asked for. -/
theorem tail (h : Carries D known .ready xs [f] .done) (hx : f.extent? = some x)
    (hgs : ∀ known, Carries .nothing known .done ys gs .done)
    (hspares : D.Spares ⟨x.stop, extent.stop⟩) :
    Carries D known .ready (xs ++ ys) [.node extent (f :: gs)] .done where
  ne_nil _ _ := List.cons_ne_nil _ _
  run {rest rs e ctx after} hrest hknown hgaps hrun := by
    obtain ⟨mid, hrun₁, hrun₂⟩ := runAll_append_ok.1 hrun
    obtain ⟨stop, _, ahead, rfl, ⟨_, _, hstop, mid', inner, outer, rfl, hf, houter⟩, hafter⟩ :=
      hgaps
    obtain ⟨rfl, hkept⟩ := h.run_single hknown rfl hf hrun₁
    have hlast : Layout.AfterGaps (gs ++ []) mid.cursor outer stop := by rwa [List.append_nil]
    obtain ⟨passed, _, rfl, ⟨rfl, rfl⟩, hkept'⟩ :=
      (hgs []).run (a := .done) (b := .done) (absurd rfl) (List.forall_mem_nil _) hlast hrun₂
    rw [List.append_nil]
    have hpassed : ∀ r ∈ passed, ¬D.kept r := fun r hr => by
      obtain ⟨hge, -, hle⟩ := hkept'.between.mem r hr
      exact hspares r ⟨Nat.le_trans (Nat.le_of_eq (hf.offset_eq hx).2.symm) hge,
        Nat.le_trans hle (Nat.le_of_eq hstop)⟩
    exact ⟨inner ++ passed, ahead, rfl, hafter, hkept.trans (hkept'.of_nothing hpassed)⟩

/-! ## Layouts that are visited again -/

/-- What a layout further up has of trivia is copied once more. -/
theorem revisit_run {start stop : Cursor} (h : Carries D [] .ready xs [f] .done)
    (hx : f.extent? = some x) (htext : start.text = ctx.cursor.text) (hf : f.Gaps start rs stop)
    (hle : stop.offset ≤ ctx.cursor.offset)
    (hrun : Step.runAll [.revisit x.start xs] ctx = .ok () after) :
    after.cursor = ctx.cursor ∧ ∃ pieces : List Piece,
      after.writer = ctx.writer.added (pieces.flatMap Piece.text) ∧
      Carried D ctx.cursor.offset rs (pieces.filterMap Piece.run?) := by
  obtain ⟨there, mid, hthere, hpos, hsteps, hback⟩ := revisit_ok (runAll_singleton_ok.1 hrun)
  obtain rfl : start = there :=
    Cursor.eq_of_offset_eq (htext.trans hthere.symm) ((hf.offset_eq hx).1.trans hpos.symm)
  have hat : (ctx.moved start []).cursor = start := rfl
  obtain ⟨rfl, hkept⟩ := h.run_single (List.forall_mem_nil _) hat hf hsteps
  obtain ⟨pieces, hwriter, hcarried⟩ := hkept.written
  rw [hback hf.text_eq]
  refine ⟨rfl, pieces, ?_, hcarried.weaken hle⟩
  change mid.writer.added [] = _
  rw [Writer.added_nil, hwriter]
  change (ctx.writer.added []).added _ = _
  rw [Writer.added_nil]

theorem revisit (hmem : f ∈ known) (hx : f.extent? = some x)
    (h : Carries D [] .ready xs [f] .done) : Carries D known a [.revisit x.start xs] [] a where
  ne_nil ha hdone := absurd hdone ha
  run {rest rs e ctx after} _ hknown hgaps hrun := by
    obtain ⟨start, inner, stop, htext, hf, hle⟩ := hknown f hmem
    obtain ⟨hcursor, pieces, hwriter, hcarried⟩ := h.revisit_run hx htext hf hle hrun
    refine ⟨[], rs, rfl, hcursor ▸ hgaps, ?_, ?_, pieces, hwriter, .of_behind ?_⟩
    · rw [hcursor]
    · rw [hcursor]
      exact .nil (Nat.le_refl _)
    · rw [hcursor]
      exact hcarried.behind

/-- An assignment that reads its left side once more. -/
theorem assign {target : Target} {token : String} {g : Layout} (hx : f.extent? = some x)
    (hleft : ∀ known, Carries D known .ready xs [f] .done)
    (hright : ∀ known, Carries D known .ready ys [g] .done) :
    Carries D known .ready (assignByCall target token x.start xs ys) [f, .token token, g]
      .done := by
  have hop : Carries D (f :: known) .done [Script.operator target token "=" false]
      [.token token] .ready := operator
  have hagain : Carries D (f :: known) .ready
      [.emit unsignedShiftFunction, .emit "(", .revisit x.start xs, .emit ", "] [] .ready :=
    emit.cons (emit.cons ((revisit List.mem_cons_self hx (hleft [])).cons emit))
  have hclose : Carries D (f :: known) .done [.emit ")"] [] .done := emit
  have hall := (hleft known).append_known (((hop.append hagain).append (hright _)).append hclose)
  rw [assignByCall, List.append_assoc, List.append_assoc]
  rwa [List.append_assoc, List.append_assoc] at hall

/-- A layout is replaced, and rendered after those that follow it. What is asked for of it need not
be in its place. -/
theorem deferred (text : String) {zs ts : Script} (hx : f.extent? = some x)
    (hplace : ∀ r : PlacedRun, r.Within x → ¬D.inPlace r)
    (hfs : ∀ known, Carries D known .done zs fs .done) (hts : Carries D [] .ready ts [f] .done)
    (hgs : Carries D (f :: known) .done ys gs .done) :
    Carries D known .ready ([.replace x text] ++ zs ++ [.revisit x.start ts] ++ ys)
      (f :: (fs ++ gs)) .done where
  ne_nil _ _ := List.cons_ne_nil _ _
  run {rest rs e ctx after} hrest hknown hgaps hrun := by
    obtain ⟨ctx₃, hrun, hrun₄⟩ := runAll_append_ok.1 hrun
    obtain ⟨ctx₂, hrun, hrun₃⟩ := runAll_append_ok.1 hrun
    obtain ⟨ctx₁, hrun₁, hrun₂⟩ := runAll_append_ok.1 hrun
    obtain ⟨stop, inner, outer, rfl, hf, hafter⟩ := hgaps
    obtain ⟨hstart, hstop⟩ := hf.offset_eq hx
    obtain ⟨covered, hpass⟩ := hf.lies.passes
    obtain rfl :=
      replaceExtent_ok_of_passes (runAll_singleton_ok.1 hrun₁) hpass hstart hstop
    have hfollows : Stance.done.Gaps (fs ++ (gs ++ rest)) (ctx.moved stop text.toList).cursor
        outer e := by
      rw [← List.append_assoc]
      exact hafter
    obtain ⟨passed, _, rfl, hgaps', hkept⟩ :=
      (hfs []).run (absurd rfl) (List.forall_mem_nil _) hfollows hrun₂
    obtain ⟨hcursor, pieces, hwriter, hcarried⟩ := hts.revisit_run hx
      (hf.text_eq.symm.trans hkept.text_eq.symm) hf hkept.between.le hrun₃
    have hlate : Kept D (inner ++ passed) ctx ctx₃ :=
      hkept.late hf.text_eq hf.between hcursor ⟨pieces, hwriter, hcarried⟩
        fun r hr => hplace r (hf.within hx hr)
    have hknown₃ : ∀ g ∈ f :: known, LiesBehind g ctx₃.cursor := by
      refine List.forall_mem_cons.2 ⟨?_, fun g hg => (hknown g hg).kept hlate⟩
      exact ⟨ctx.cursor, inner, stop, hlate.text_eq.symm, hf, hcursor ▸ hkept.between.le⟩
    obtain ⟨passed', ahead, rfl, hahead, hkept'⟩ :=
      hgs.run (a := .done) hrest hknown₃ (hcursor ▸ hgaps') hrun₄
    exact ⟨inner ++ passed ++ passed', ahead, by simp only [List.append_assoc], hahead,
      hlate.trans hkept'⟩

end Carries

end Lockstep.Render
