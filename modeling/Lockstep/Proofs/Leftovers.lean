import Lockstep.Proofs.ImportWalk
import Lockstep.Proofs.Restoring

/-!
# What a rendering does not notice

A node is only rendered where it is met, so an import that comes after text which no node stands for
is refused. Nothing checks the text between the last import and the type, before the package, or
after the type: the rendering goes there by offsets, and what the tree leaves out is dropped.

- `CompilationUnit.render_meets_imports`: from the package to the last import no text is dropped.
- `CompilationUnit.render_drops_class`: after the type a whole class is.
-/

namespace Lockstep

open Config Output Render Source Target Text

namespace Tree

variable {s : Settings} {ctx after : Context} {source : List Char}

/-! ## Imports are met -/

/-- A cursor that has reached a node where no trivia begin is at the node. -/
theorem eq_of_hasReached {c d : Cursor} (htext : c.text = d.text)
    (habsent : Trivia.next d.ahead = .absent) (h : c.hasReached d.offset = true) : c = d := by
  unfold Cursor.hasReached at h
  by_cases heq : c.offset = d.offset
  · exact Cursor.eq_of_offset_eq htext heq
  · have hat : c.at? d.offset = some d := Cursor.at?_of_text_eq htext.symm
    by_cases hlt : d.offset < c.offset
    · have hskip := skipTrivia_until_eq (.refl d) .nil (Nat.le_of_lt hlt) (.inl habsent)
      simp [hat, hskip, heq, Nat.not_le.2 hlt] at h
    · simp [heq, hlt] at h

/-- An import that is faithful to the source is rendered where it lies. -/
theorem ImportDecl.render_meets {i : ImportDecl} (hfaithful : i.layout.FaithfulTo source)
    (htext : ctx.cursor.text = source) (hw : ctx.writer.Works)
    (h : i.render s ctx = .ok () after) :
    ∃ stop text, i.layout.Lies ctx.cursor stop ∧ stop.Passes text after.cursor ∧
      Trivia.Runs text after.cursor.ahead ∧ after.writer.Works := by
  obtain ⟨c, stop, hc, hlies⟩ := hfaithful
  obtain ⟨-, henter, -⟩ := inNode_ok h
  have hreached := hasReached_of_enter henter
  rw [← (hlies.offset_eq (x := i.extent) rfl).1] at hreached
  obtain rfl := eq_of_hasReached (htext.trans hc.symm) hlies.absent hreached
  rcases ImportDecl.render_lies hlies rfl hw h with ⟨text, hcursor, hwriter⟩ | ⟨⟨b, hskip⟩, hwriter⟩
  · refine ⟨stop, [], hlies, ?_, .nil, hwriter ▸ hw.added text⟩
    rw [hcursor]
    exact .refl stop
  · obtain ⟨text, hpass, hruns⟩ := skipLineRest_passes hskip
    exact ⟨stop, text, hlies, hpass, hruns, hwriter ▸ hw⟩

/-- The imports are met one after another, with trivia between them. -/
theorem renderImports_meets {imports : List ImportDecl} {limit : Nat}
    (hfaithful : ∀ i ∈ imports, i.layout.FaithfulTo source) (htext : ctx.cursor.text = source)
    (hw : ctx.writer.Works) (h : renderImports s limit imports ctx = .ok () after) :
    ∃ gap c gaps, ctx.cursor.Passes gap c ∧ Trivia.Runs gap c.ahead ∧
      ImportsLie imports gaps c after.cursor := by
  induction imports generalizing ctx with
  | nil =>
    cases h
    exact ⟨[], _, [], .refl _, .nil, .nil⟩
  | cons i rest ih =>
    obtain ⟨_, ctx₁, hcopy, h⟩ := bind_ok.1 h
    obtain ⟨gap, cursor, hskip, -, rfl⟩ := copyTriviaUntil_ok hcopy
    obtain ⟨hpass, hruns, -⟩ := skipTrivia_ok hskip
    have htext₁ : cursor.text = source := hpass.text_eq.trans htext
    obtain ⟨_, ctx₂, hrender, h⟩ := bind_ok.1 h
    obtain ⟨stop, text, hlies, hline, hlineRuns, hw₂⟩ :=
      ImportDecl.render_meets (hfaithful i (.head _)) htext₁ (hw.added _) hrender
    have htext₂ := ((i.render_leaves s).ok hrender).text.trans htext₁
    obtain ⟨gap', c, gaps, hpass', hruns', hrest⟩ :=
      ih (fun j hj => hfaithful j (.tail _ hj)) htext₂ hw₂ h
    refine ⟨gap.toList, cursor, _, hpass, hruns, .cons hlies (hline.trans hpass') ?_ hrest⟩
    exact .append (hpass'.ahead ▸ hlineRuns) hruns'

/-! ## Units -/

/-- The offset at which a package ends, or at which the source begins. -/
def packageEnd : Option PackageDecl → Nat
  | some p => p.extent.stop.toNat
  | none => 0

/-- The rendering goes back to the end of the package, and on over trivia. -/
theorem returnToHead_meets {package : Option PackageDecl} {limit : Nat}
    (h : returnToHead package limit ctx = .ok () after) :
    ∃ (start : Cursor) (gap : List Char), start.text = ctx.cursor.text ∧
      start.offset = packageEnd package ∧ start.Passes gap after.cursor ∧
      Trivia.Runs gap after.cursor.ahead ∧ after.writer = ctx.writer := by
  cases package with
  | none =>
    obtain ⟨_, ctx₁, hjump, h⟩ := bind_ok.1 h
    obtain ⟨start, hstart, hoffset, rfl⟩ := jumpTo_ok hjump
    obtain ⟨gap, cursor, hpass, hruns, -, rfl⟩ := skipTriviaUntil_ok h
    refine ⟨start, gap, hstart, hoffset, hpass, hruns, ?_⟩
    simp only [Context.moved_nil]
  | some p =>
    obtain ⟨_, ctx₁, hjump, h⟩ := bind_ok.1 h
    obtain ⟨start, hstart, hoffset, rfl⟩ := jumpTo_ok hjump
    obtain ⟨_, ctx₂, hline, h⟩ := bind_ok.1 h
    cases h
    obtain ⟨gap, cursor, hpass, hruns, rfl⟩ := skipLineRest_ok hline
    refine ⟨start, gap, hstart, hoffset, hpass, hruns, ?_⟩
    simp only [Context.moved_nil]

/-- When a unit is rendered and its imports are faithful to the source, no text from the package to
the last import is dropped: the imports lie there one after another with trivia between them. -/
theorem CompilationUnit.render_meets_imports {u : CompilationUnit} {input : String}
    (hfaithful : ∀ i ∈ u.imports, i.layout.FaithfulTo input.toList)
    (h : u.render s (.start input true) = .ok () after) :
    ∃ (start c d : Cursor) (gap : List Char) (gaps : List (List Char)),
      start.text = input.toList ∧ start.offset = packageEnd u.package ∧ start.Passes gap c ∧
        Trivia.Runs gap c.ahead ∧ ImportsLie u.imports gaps c d := by
  obtain ⟨type, -, h⟩ := u.render_ok h
  obtain ⟨_, ctx₁, hfirst, h⟩ := bind_ok.1 h
  obtain ⟨text, cursor, hskip, -, rfl⟩ := copyTriviaUntil_ok hfirst
  obtain ⟨hpass, -, -⟩ := skipTrivia_ok hskip
  have hw : ((Context.start input true).moved cursor text.toList).writer.Works :=
    Writer.Works.added (.inr rfl) _
  obtain ⟨body, ctx₂, hbody, h⟩ := bind_ok.1 h
  obtain ⟨inside, hinside, -, rfl⟩ := captured_ok hbody
  have hextended := (renderBody_leaves s u.package type).ok hinside
  have htext : inside.cursor.text = input.toList := hextended.text.trans hpass.text_eq
  have hw₂ : inside.writer.closeCapture.2.Works := by
    rw [Writer.closeCapture_of_extended hextended.writer]
    exact hw
  obtain ⟨_, ctx₃, hreturn, h⟩ := bind_ok.1 h
  obtain ⟨start, gap, hstart, hoffset, hgap, hruns, hwriter⟩ := returnToHead_meets hreturn
  obtain ⟨_, ctx₄, hrest, h⟩ := bind_ok.1 h
  obtain ⟨gap', cursor', hskip', -, rfl⟩ := copyTriviaUntil_ok hrest
  obtain ⟨hgap', hruns', -⟩ := skipTrivia_ok hskip'
  have hall := hgap.trans hgap'
  obtain ⟨_, ctx₅, himports, -⟩ := bind_ok.1 h
  obtain ⟨gap'', c, gaps, hgap'', hruns'', hlie⟩ :=
    renderImports_meets hfaithful (hall.text_eq.trans (hstart.trans htext))
      ((hwriter.symm ▸ hw₂ : ctx₃.writer.Works).added _) himports
  refine ⟨start, c, _, _, gaps, hstart.trans htext, hoffset, hall.trans hgap'', ?_, hlie⟩
  exact .append (hgap''.ahead ▸ .append (hgap'.ahead ▸ hruns) hruns') hruns''

/-- An import after a comment. -/
theorem CompilationUnit.render_meets_imports_comment :
    ∃ (start c d : Cursor) (gap : List Char) (gaps : List (List Char)),
      start.text = "/**/import q.B;\nclass A \x7b \x7d".toList ∧ start.offset = 0 ∧
        start.Passes gap c ∧ Trivia.Runs gap c.ahead ∧
        ImportsLie [⟨⟨4, 15⟩, .qualified ⟨11, 14⟩ (.simple ⟨⟨11, 12⟩, "q"⟩) ⟨⟨13, 14⟩, "B"⟩ none,
          false, false, none⟩] gaps c d := by
  obtain ⟨after, hrun, -⟩ := runFrom_ok (by decide +kernel : renderUnit (.ofTarget .csharp)
    "/**/import q.B;\nclass A \x7b \x7d" true
    ⟨⟨0, 27⟩, none,
      [⟨⟨4, 15⟩, .qualified ⟨11, 14⟩ (.simple ⟨⟨11, 12⟩, "q"⟩) ⟨⟨13, 14⟩, "B"⟩ none,
        false, false, none⟩],
      [⟨⟨⟨16, 27⟩, .class, [], ⟨⟨22, 23⟩, "A"⟩, [], none, []⟩, []⟩]⟩ =
    ⟨none, "/**/using B = q.B;\nclass A \x7b \x7d"⟩)
  refine CompilationUnit.render_meets_imports (fun i hi => ?_) hrun
  obtain rfl := List.mem_singleton.1 hi
  let start : Cursor := .ofText "/**/import q.B;\nclass A \x7b \x7d"
  have passes (n m : Nat) := (start.pass n).passes_pass m
  have hblank (rest : List Char) (h : Trivia.next (" ".toList ++ rest) = .run .blanks 1) :
      Trivia.Runs " ".toList rest := .single h
  have hname : Layout.LieAll
      [.node ⟨11, 12⟩ [.token "q"], .token ".", .node ⟨13, 14⟩ [.token "B"]]
      (start.pass 11) (start.pass 14) := by
    refine ⟨_, ⟨rfl, rfl, rfl, _, ⟨rfl, passes 11 1⟩, rfl⟩, ?_⟩
    refine ⟨[], _, _, .refl _, .nil, ⟨rfl, passes 12 1⟩, ?_⟩
    exact ⟨[], _, _, .refl _, .nil, ⟨rfl, rfl, rfl, _, ⟨rfl, passes 13 1⟩, rfl⟩, rfl⟩
  refine ⟨start.pass 4, start.pass 15, rfl, rfl, rfl, rfl, _, ⟨rfl, passes 4 6⟩, ?_⟩
  refine ⟨_, _, _, passes 10 1, hblank _ rfl, ⟨rfl, rfl, rfl, hname⟩, ?_⟩
  exact ⟨[], _, _, .refl _, .nil, ⟨rfl, passes 14 1⟩, rfl⟩

/-- A class that the tree leaves out is dropped, though it is no trivia. -/
theorem CompilationUnit.render_drops_class :
    renderUnit (.ofTarget .csharp) "class A \x7b \x7d class B \x7b \x7d" true
        ⟨⟨0, 23⟩, none, [], [⟨⟨⟨0, 11⟩, .class, [], ⟨⟨6, 7⟩, "A"⟩, [], none, []⟩, []⟩]⟩ =
        ⟨none, "class A \x7b \x7d "⟩ ∧
      ∃ d : Cursor, d.text = "class A \x7b \x7d class B \x7b \x7d".toList ∧ d.offset = 11 ∧
        ¬ Trivia.Runs d.ahead [] := by
  refine ⟨by decide +kernel, (Cursor.ofText "class A \x7b \x7d class B \x7b \x7d").pass 11,
    rfl, rfl, fun hruns => ?_⟩
  have hlead := Trivia.lead_append hruns rfl
  rw [List.append_nil] at hlead
  revert hlead
  decide +kernel

end Tree

end Lockstep
