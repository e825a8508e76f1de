import Lockstep.Proofs.Layout
import Lockstep.Proofs.Running

/-!
# Scripts that walk a layout

`Walks` relates a script to the layouts that it passes: one after another, with the trivia between
them, and nothing else. It is the invariant from which both directions of keeping in step are
derived: a run that succeeds has passed exactly these tokens (`Walks.interleaves`), and a run over a
source in which the layouts lie does not fail (`Walks.ends`, in `Lockstep.Proofs.InStep`).
-/

namespace Lockstep.Render

open Source Target Text Lockstep.Tree

/-- The script stops for the sake of the tree, and not because the source is another. -/
def RenderError.IsRefusal : RenderError → Prop
  | .unsupported .. | .missingBinding .. => True
  | .desync .. | .output => False

/-- Where the cursor is between two steps of a script. -/
inductive Stance where
  /-- Just after a layout. -/
  | done
  /-- In the trivia before a layout. -/
  | loose
  /-- Where a layout begins. -/
  | ready
  deriving DecidableEq

theorem Stance.done_ne_ready : Stance.done ≠ .ready := nofun

theorem Stance.loose_ne_ready : Stance.loose ≠ .ready := nofun

/-- The script passes the layouts, from a place of the first kind to one of the second. `known` are
layouts that lie in the source and may be visited again; parts of the source are passed as a whole
only if `replaces` holds. -/
inductive Walks (replaces : Prop) :
    List Layout → Stance → Script → List Layout → Stance → Prop where
  | nil : Walks replaces known a [] [] a
  | append : Walks replaces known a xs fs b → Walks replaces known b ys gs c →
      Walks replaces known a (xs ++ ys) (fs ++ gs) c
  /-- The script may stop where a node begins, … -/
  | refuse : e.IsRefusal → Walks replaces known .ready [.refuse e] [f] b
  /-- … and on the way. -/
  | halt : e.IsRefusal → Walks replaces known a [.refuse e] [] a
  | enter : f.extent? = some extent → Walks replaces known .ready xs [f] b →
      Walks replaces known .ready (.enter kind extent :: xs) [f] b
  | parts : b ≠ .ready → Walks replaces (fs ++ known) .ready xs fs b →
      Walks replaces known .ready xs [.node extent fs] b
  | swap : Walks replaces known .ready [.swap token text] [.token token] .done
  | operator : Walks replaces known a [.operator token text balanced spaced] [.token token] .ready
  | modifier : Walks replaces known .ready [.modifier target word extent] [.token word.token] .loose
  | replace : replaces → f.extent? = some extent →
      Walks replaces known .ready [.replace extent text] [f] .done
  | emit : Walks replaces known a [.emit text] [] a
  | require : Walks replaces known a [.require name] [] a
  | copyTrivia : Walks replaces known a [.copyTrivia] [] .ready
  | skipTrivia : Walks replaces known a [.skipTrivia] [] .ready
  | skipBlanks : a ≠ .ready → Walks replaces known a [.skipBlanks] [] .loose
  | skipLineRest : a ≠ .ready → Walks replaces known a [.skipLineRest] [] .loose
  | loosen : Walks replaces known a xs fs .done → Walks replaces known a xs fs .loose
  | within : Walks replaces known a xs fs b → Walks replaces known a [.within decl xs] fs b
  | times : Walks replaces known a xs fs a →
      Walks replaces known a [.times n xs] (List.replicate n fs).flatten a
  | revisit : f ∈ known → f.extent? = some extent → Walks replaces known .ready xs [f] .done →
      Walks replaces known a [.revisit extent.start xs] [] a

namespace Walks

variable {replaces : Prop} {known fs gs : List Layout} {a b c : Stance} {xs ys : Script} {x : Step}
  {ctx ctx' : Context}

theorem cons (h : Walks replaces known a [x] fs b) (h' : Walks replaces known b xs gs c) :
    Walks replaces known a (x :: xs) (fs ++ gs) c := h.append h'

/-- More layouts may be known. -/
theorem mono {known' : List Layout} (h : Walks replaces known a xs fs b) (hknown : known ⊆ known') :
    Walks replaces known' a xs fs b := by
  induction h generalizing known' with
  | nil => exact .nil
  | append _ _ ih₁ ih₂ => exact .append (ih₁ hknown) (ih₂ hknown)
  | refuse he => exact .refuse he
  | halt he => exact .halt he
  | enter hf _ ih => exact .enter hf (ih hknown)
  | parts hb _ ih =>
    refine .parts hb (ih ?_)
    exact List.append_subset.2
      ⟨List.subset_append_left .., List.subset_append_of_subset_right _ hknown⟩
  | swap => exact .swap
  | operator => exact .operator
  | modifier => exact .modifier
  | replace hr hf => exact .replace hr hf
  | emit => exact .emit
  | require => exact .require
  | copyTrivia => exact .copyTrivia
  | skipTrivia => exact .skipTrivia
  | skipBlanks ha => exact .skipBlanks ha
  | skipLineRest ha => exact .skipLineRest ha
  | loosen _ ih => exact .loosen (ih hknown)
  | within _ ih => exact .within (ih hknown)
  | times _ ih => exact .times (ih hknown)
  | revisit hmem hf _ ih => exact .revisit (hknown hmem) hf (ih hknown)

/-- A script that leaves a kind of place for good has passed a layout. -/
private theorem ne_nil_of_leaves {P : Stance → Prop} (hready : P .ready)
    (hloose : ∀ s, s ≠ .ready → P s → P .loose) (h : Walks replaces known a xs fs b)
    (ha : P a) (hb : ¬P b) : fs ≠ [] := by
  induction h with
  | nil | halt | emit | require | revisit | times => exact absurd ha hb
  | @append _ _ _ _ mid _ _ _ _ _ ih₁ ih₂ =>
    intro h
    obtain ⟨hfs, hgs⟩ := List.append_eq_nil_iff.1 h
    by_cases hmid : P mid
    · exact ih₂ hmid hb hgs
    · exact ih₁ ha hmid hfs
  | refuse | enter | parts | swap | operator | modifier | replace => exact List.cons_ne_nil _ _
  | copyTrivia | skipTrivia => exact absurd hready hb
  | skipBlanks hne | skipLineRest hne => exact absurd (hloose _ hne ha) hb
  | loosen _ ih => exact ih ha fun hdone => hb (hloose .done nofun hdone)
  | within _ ih => exact ih ha hb

theorem ne_nil_of_done (h : Walks replaces known a xs fs .done) (ha : a ≠ .done) : fs ≠ [] :=
  ne_nil_of_leaves (P := (· ≠ .done)) nofun (fun _ _ _ => nofun) h ha (· rfl)

theorem ne_nil_of_ready (h : Walks replaces known .ready xs fs b) (hb : b ≠ .ready) : fs ≠ [] :=
  ne_nil_of_leaves (P := (· = .ready)) rfl (fun _ hne h => absurd h hne) h rfl hb

/-! ## Runs that succeed -/

variable {ctx ctx' : Context}

/-- A run that succeeds has passed the tokens of the layouts, in their order, and whole runs of
trivia. -/
theorem interleaves (hr : ¬replaces) (h : Walks replaces known a xs fs b)
    (hrun : Step.runAll xs ctx = .ok () ctx') :
    ∃ text, ctx.cursor.Passes text ctx'.cursor ∧
      Interleaves (Layout.allTokens fs) text ctx'.cursor.ahead := by
  induction h generalizing ctx ctx' with
  | nil =>
    cases runAll_nil_ok.1 hrun
    exact ⟨[], .refl _, .nil⟩
  | append _ _ ih₁ ih₂ =>
    obtain ⟨mid, hrun₁, hrun₂⟩ := runAll_append_ok.1 hrun
    obtain ⟨text₁, hpass₁, htext₁⟩ := ih₁ hrun₁
    obtain ⟨text₂, hpass₂, htext₂⟩ := ih₂ hrun₂
    refine ⟨text₁ ++ text₂, hpass₁.trans hpass₂, ?_⟩
    rw [Layout.allTokens_append]
    rw [hpass₂.ahead] at htext₁
    exact htext₁.append htext₂
  | refuse | halt => cases runAll_singleton_ok.1 hrun
  | enter _ _ ih =>
    obtain ⟨mid, henter, hrun⟩ := runAll_cons_ok.1 hrun
    cases enter_ok henter
    exact ih hrun
  | parts _ _ ih =>
    obtain ⟨text, hpass, htext⟩ := ih hrun
    refine ⟨text, hpass, ?_⟩
    simp only [Layout.allTokens, Layout.tokens, List.append_nil]
    exact htext
  | @swap _ token =>
    obtain ⟨cursor, hpass, rfl⟩ := swap_ok (runAll_singleton_ok.1 hrun)
    exact ⟨_, hpass, .single token _⟩
  | @operator _ _ token =>
    obtain ⟨cursor, move, rfl⟩ := swapOperator_ok (runAll_singleton_ok.1 hrun)
    refine ⟨_, move.passes_before.trans (move.passes_token.trans move.passes_after), ?_⟩
    refine .trivia ?_ (.token token (.ofRuns move.runs_after))
    have hahead := (move.passes_token.trans move.passes_after).ahead
    exact hahead ▸ move.runs_before
  | @modifier _ _ word =>
    obtain ⟨mid, cursor, blanks, text, hpass, hblanks, hruns, rfl⟩ :=
      swapModifier_ok (runAll_singleton_ok.1 hrun)
    exact ⟨_, hpass.trans hblanks, .token word.token (.ofRuns hruns)⟩
  | replace hreplaces => exact absurd hreplaces hr
  | emit =>
    cases write_ok (runAll_singleton_ok.1 hrun)
    exact ⟨[], .refl _, .nil⟩
  | require =>
    cases require_ok (runAll_singleton_ok.1 hrun)
    exact ⟨[], .refl _, .nil⟩
  | copyTrivia =>
    obtain ⟨text, cursor, hpass, hruns, -, rfl⟩ :=
      Step.run_copyTrivia_ok (runAll_singleton_ok.1 hrun)
    exact ⟨text, hpass, .ofRuns hruns⟩
  | skipTrivia =>
    obtain ⟨text, cursor, hpass, hruns, _, rfl⟩ := skipTriviaUntil_ok (runAll_singleton_ok.1 hrun)
    exact ⟨text, hpass, .ofRuns hruns⟩
  | skipBlanks =>
    obtain ⟨text, cursor, hpass, hruns, rfl⟩ := skipBlanks_ok (runAll_singleton_ok.1 hrun)
    exact ⟨text, hpass, .ofRuns hruns⟩
  | skipLineRest =>
    obtain ⟨text, cursor, hpass, hruns, rfl⟩ :=
      Step.run_skipLineRest_ok (runAll_singleton_ok.1 hrun)
    exact ⟨text, hpass, .ofRuns hruns⟩
  | loosen _ ih => exact ih hrun
  | within _ ih =>
    obtain ⟨mid, hsteps, rfl⟩ := inDeclaration_ok (runAll_singleton_ok.1 hrun)
    obtain ⟨text, hpass, htext⟩ := ih hsteps
    exact ⟨text, hpass, htext⟩
  | @times _ _ xs fs n _ ih =>
    replace hrun : repeated (Step.runAll xs) n ctx = .ok () ctx' := runAll_singleton_ok.1 hrun
    induction n generalizing ctx with
    | zero =>
      cases repeated_zero_ok.1 hrun
      exact ⟨[], .refl _, .nil⟩
    | succ n ihn =>
      obtain ⟨mid, hfirst, hrest⟩ := repeated_succ_ok.1 hrun
      obtain ⟨text₁, hpass₁, htext₁⟩ := ih hfirst
      obtain ⟨text₂, hpass₂, htext₂⟩ := ihn hrest
      refine ⟨text₁ ++ text₂, hpass₁.trans hpass₂, ?_⟩
      rw [List.replicate_succ, List.flatten_cons, Layout.allTokens_append]
      rw [hpass₂.ahead] at htext₁
      exact htext₁.append htext₂
  | revisit _ _ _ ih =>
    obtain ⟨start, mid, _, _, hrun, hback⟩ := revisit_ok (runAll_singleton_ok.1 hrun)
    obtain ⟨text, hpass, _⟩ := ih hrun
    rw [hback hpass.text_eq]
    exact ⟨[], .refl _, .nil⟩

end Walks

end Lockstep.Render
