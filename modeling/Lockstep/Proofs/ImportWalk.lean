import Lockstep.Proofs.DeclWalk
import Lockstep.Proofs.RunningUnits

/-!
# Imports are walked to their ends

An import is rendered by a script that walks its name, or it is dropped with the rest of its line.
Over a source in which it lies, the rendering comes to its end either way.

- `ImportDecl.NamedBy`: what is put for the name of an import walks the name.
- `ImportDecl.render_ok`, `ImportDecl.renderNew_ok`: the two ways an import may go.
- `ImportDecl.render_lies`: the rendering of an import that lies in the source.
-/

namespace Lockstep

open Config Output Render Source Target Text

namespace Tree

/-! ## Imports -/

/-- An import that is kept, with what is put for its name. -/
def ImportDecl.keptScript (name : Script) : Script :=
  [.swap "import" "using", .copyTrivia] ++ name ++ [.copyTrivia, .swap ";" ";"]

/-- The layouts of the name of an import, with the full stop and the star after it. -/
def ImportDecl.nameLayouts (i : ImportDecl) : List Layout :=
  i.name.layout :: if i.isOnDemand then [.token ".", .token "*"] else []

theorem ImportDecl.layout_eq {i : ImportDecl} (h : i.isStatic = false) :
    i.layout = .node i.extent ([.token "import"] ++ i.nameLayouts ++ [.token ";"]) := by
  simp [layout, nameLayouts, h]

theorem ImportDecl.keptScript_walks {i : ImportDecl} {name : Script} {known : List Layout}
    (h : Walks True known .ready name i.nameLayouts .done) :
    Walks True known .ready (keptScript name)
      ([.token "import"] ++ i.nameLayouts ++ [.token ";"]) .done :=
  ((walks_sequence.before "import" "using").append h).append (walks_sequence.spaced ";" ";")

/-- The rendering is that of a script which walks the name of the import. -/
def ImportDecl.NamedBy (i : ImportDecl) (body : Rendering Unit) : Prop :=
  ∃ name : Script, (∀ {ctx after}, body ctx = .ok () after → Step.runAll name ctx = .ok () after) ∧
    ∀ known, Walks True known .ready name i.nameLayouts .done

section

variable (s : Settings) {i : ImportDecl} {ctx after : Context}

theorem ImportDecl.namedBy_all (hall : i.isOnDemand = true) :
    i.NamedBy (do
      runScript (i.name.script s)
      skipTriviaUntil none
      swap "." ""
      skipTriviaUntil none
      swap "*" "") := by
  refine ⟨i.name.script s ++ [.skipTrivia, .swap "." "", .skipTrivia, .swap "*" ""], ?_, ?_⟩
  · intro ctx after h
    obtain ⟨_, _, hname, h⟩ := bind_ok.1 h
    obtain ⟨_, _, htrivia, h⟩ := bind_ok.1 h
    obtain ⟨_, _, hstop, h⟩ := bind_ok.1 h
    obtain ⟨_, _, htrivia', hstar⟩ := bind_ok.1 h
    refine runAll_append_ok.2 ⟨_, hname, runAll_cons_ok.2 ⟨_, htrivia, runAll_cons_ok.2 ⟨_, hstop,
      runAll_cons_ok.2 ⟨_, htrivia', runAll_singleton_ok.2 hstar⟩⟩⟩⟩
  · intro known
    unfold nameLayouts
    rw [hall]
    exact (i.name.walks s).append (.cons .skipTrivia (.cons .swap (.cons .skipTrivia .swap)))

theorem ImportDecl.namedBy_generic (hone : i.isOnDemand = false) (name : String) :
    i.NamedBy (replaceExtent i.name.extent name) := by
  refine ⟨[.replace i.name.extent name], fun h => runAll_singleton_ok.2 h, fun known => ?_⟩
  unfold nameLayouts
  rw [hone]
  exact .replace trivial i.name.extent?_layout

theorem ImportDecl.namedBy_alias (hone : i.isOnDemand = false) (short : String) :
    i.NamedBy (do write short; runScript (i.name.script s)) := by
  refine ⟨.emit short :: i.name.script s, fun h => ?_, fun known => ?_⟩
  · exact runAll_cons_ok.2 (bind_unit_ok.1 h)
  · unfold nameLayouts
    rw [hone]
    exact .cons .emit (i.name.walks s)

variable {s}

/-- An import that is rendered is either dropped or new. -/
theorem ImportDecl.render_ok (h : i.render s ctx = .ok () after) :
    i.isStatic = false ∧ (i.skip ctx = .ok () after ∨
      ∃ key body, i.NamedBy body ∧ i.renderNew key body ctx = .ok () after) := by
  obtain ⟨-, -, h⟩ := inNode_ok h
  cases hstatic : i.isStatic with
  | true =>
    rw [hstatic] at h
    cases h
  | false =>
    simp only [hstatic, Bool.false_eq_true, if_false] at h
    refine ⟨rfl, ?_⟩
    cases hname : i.name with
    | simple n =>
      rw [hname] at h
      cases h
    | qualified extent qualifier n binding =>
      rw [hname] at h
      dsimp only at h
      split at h
      · exact .inl h
      · split at h
        · next hall => exact .inr ⟨_, _, ImportDecl.namedBy_all s hall, h⟩
        · next hone =>
          have hone := Bool.eq_false_iff.2 hone
          split at h
          · exact .inr ⟨_, _, ImportDecl.namedBy_generic hone _, h⟩
          · exact .inr ⟨_, _, ImportDecl.namedBy_alias s hone _, h⟩

/-- A new import is rendered by a script. -/
theorem ImportDecl.renderNew_ok {key : String} {body : Rendering Unit} {name : Script}
    (hbody : ∀ {ctx after}, body ctx = .ok () after → Step.runAll name ctx = .ok () after)
    (h : i.renderNew key body ctx = .ok () after) :
    ∃ mid : Context, mid.cursor = ctx.cursor ∧ mid.writer = ctx.writer ∧
      (Step.runAll (keptScript name) mid = .ok () after ∨ i.skip mid = .ok () after) := by
  obtain ⟨isNew, mid, hrecord, h⟩ := bind_ok.1 h
  obtain ⟨-, hmid⟩ := recordImport_ok hrecord
  refine ⟨mid, by rw [hmid], by rw [hmid], ?_⟩
  cases isNew with
  | false => exact .inr h
  | true =>
    obtain ⟨_, _, hword, h⟩ := bind_ok.1 h
    obtain ⟨_, _, htrivia, h⟩ := bind_ok.1 h
    obtain ⟨_, _, hname, h⟩ := bind_ok.1 h
    obtain ⟨_, _, htrivia', hend⟩ := bind_ok.1 h
    refine .inl (runAll_append_ok.2 ⟨_, runAll_append_ok.2 ⟨_, ?_, hbody hname⟩, ?_⟩)
    · exact runAll_cons_ok.2 ⟨_, hword, runAll_singleton_ok.2 (bind_ok.2 ⟨_, _, htrivia, rfl⟩)⟩
    · exact runAll_cons_ok.2 ⟨_, bind_ok.2 ⟨_, _, htrivia', rfl⟩, runAll_singleton_ok.2 hend⟩

/-- An import that is dropped is passed with the rest of its line. -/
theorem ImportDecl.skip_lies {c stop : Cursor} (hlies : i.layout.Lies c stop)
    (hat : ctx.cursor = c) (h : i.skip ctx = .ok () after) :
    (∃ b, Cursor.skipLineRest stop = .ok b after.cursor) ∧ after.writer = ctx.writer := by
  obtain ⟨_, _, hjump, h⟩ := bind_ok.1 h
  obtain ⟨stop', htext, hoffset, rfl⟩ := jumpTo_ok hjump
  obtain ⟨b, _, hrest, h⟩ := bind_ok.1 h
  cases h
  obtain ⟨cursor, hskip, rfl⟩ := walk_ok hrest
  obtain ⟨_, hpass⟩ := hlies.passes
  have htext' : stop'.text = stop.text := by rw [htext, hat, hpass.text_eq]
  have hstop := (hlies.offset_eq (x := i.extent) rfl).2
  rw [Context.cursor_moved, Cursor.eq_of_offset_eq htext' (hoffset.trans hstop.symm)] at hskip
  refine ⟨⟨b, hskip⟩, ?_⟩
  simp only [Context.moved_nil]

/-- Over a source in which it lies, an import is rendered up to its end, or it is dropped with the
rest of its line. -/
theorem ImportDecl.render_lies {c stop : Cursor} (hlies : i.layout.Lies c stop)
    (hat : ctx.cursor = c) (hw : ctx.writer.Works) (h : i.render s ctx = .ok () after) :
    (∃ text, after.cursor = stop ∧ after.writer = ctx.writer.added text) ∨
      (∃ b, Cursor.skipLineRest stop = .ok b after.cursor) ∧ after.writer = ctx.writer := by
  obtain ⟨hstatic, hskip | ⟨key, body, ⟨name, hbody, hname⟩, hnew⟩⟩ := ImportDecl.render_ok h
  · exact .inr (ImportDecl.skip_lies hlies hat hskip)
  · obtain ⟨mid, hcursor, hwriter, hrun | hskip⟩ := ImportDecl.renderNew_ok hbody hnew
    · rw [ImportDecl.layout_eq hstatic] at hlies
      obtain ⟨_, _, _, hparts⟩ := hlies
      rw [← hat, ← hcursor] at hparts
      have hends := ends_of_at (a := .ready) (keptScript_walks (hname _)) hparts (hwriter ▸ hw)
      unfold Ends at hends
      rw [hrun] at hends
      obtain ⟨text, htext⟩ := Step.runAll_adds _ hrun
      exact .inl ⟨text, hends.2, by rw [htext, hwriter]⟩
    · rw [← hwriter]
      exact .inr (ImportDecl.skip_lies hlies (hcursor.trans hat) hskip)

end

end Tree

end Lockstep
