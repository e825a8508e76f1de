import Lockstep.Proofs.NodeWalk

/-!
# Tree and source in step

Over a source in which its layout lies, a script that walks it comes to the end of the layout or
refuses the tree (`Walks.ends`). What is left to pass is followed through the steps: at each place
the layouts that are still ahead lie there, in the way that the stance says. Conversely a run that
succeeds has passed the tokens of the layout (`Walks.interleaves`).

- `Ends`: a rendering comes to a good end or refuses the tree.
- `Stance.At`: layouts lie ahead of a place of that kind.
- `Node.render_of_faithful`: types, names, expressions and statements are rendered without a fault.
- `Expr.render_interleaves`: what has been passed of the source is the expression.
-/

namespace Lockstep.Render

open Output Source Target Text Lockstep.Tree

variable {α β : Type} {ctx : Context} {c d e : Cursor} {P Q : Context → Prop}

/-- The rendering ends as it should, or refuses the tree. -/
def Ends (x : Rendering α) (ctx : Context) (P : Context → Prop) : Prop :=
  match x ctx with
  | .ok _ after => P after
  | .error e _ => e.IsRefusal

/-- The cursor is there and the writer works. -/
def Context.WorksAt (ctx : Context) (c : Cursor) : Prop :=
  ctx.writer.Works ∧ ctx.cursor = c

namespace Ends

theorem of_eq {x : Rendering α} {a : α} {after : Context} (h : x ctx = .ok a after)
    (hpost : P after) : Ends x ctx P := by
  simp only [Ends, h]
  exact hpost

theorem bind {x : Rendering α} {f : α → Rendering β} (h : Ends x ctx P)
    (hf : ∀ a after, P after → Ends (f a) after Q) : Ends (x >>= f) ctx Q := by
  unfold Ends at h ⊢
  cases hx : x ctx with
  | ok a after =>
    rw [hx] at h
    rw [bind_eq_of_ok hx]
    exact hf a after h
  | error e after =>
    rw [hx] at h
    rw [bind_eq_of_error hx]
    exact h

theorem bind_of_eq {x : Rendering α} {f : α → Rendering β} {a : α} {after : Context}
    (h : x ctx = .ok a after) (hf : Ends (f a) after P) : Ends (x >>= f) ctx P := by
  unfold Ends
  rw [bind_eq_of_ok h]
  exact hf

theorem mono {x : Rendering α} (h : Ends x ctx P) (hpost : ∀ after, P after → Q after) :
    Ends x ctx Q := by
  unfold Ends at h ⊢
  split at h
  · exact hpost _ h
  · exact h

theorem refused {x : Rendering α} {e : RenderError} {after : Context} (h : x ctx = .error e after)
    (he : e.IsRefusal) : Ends x ctx P := by
  simp only [Ends, h]
  exact he

theorem single {x : Step} (h : Ends x.run ctx P) : Ends (Step.runAll [x]) ctx P :=
  h.bind fun _ _ hpost => of_eq rfl hpost

theorem inDeclaration {x : Rendering Unit} {declaration : Declaration}
    (h : Ends x { ctx with declaration := some declaration } fun after =>
      P { after with declaration := ctx.declaration }) :
    Ends (Render.inDeclaration declaration x) ctx P := by
  unfold Ends at h ⊢
  cases hx : x { ctx with declaration := some declaration } with
  | ok _ after =>
    rw [hx] at h
    rw [Render.inDeclaration, hx]
    exact h
  | error e after =>
    rw [hx] at h
    rw [Render.inDeclaration, hx]
    exact h

end Ends

/-! ## Steps that go through -/

theorem write_eq (hw : ctx.writer.Works) (text : String) :
    write text ctx = .ok () (ctx.moved ctx.cursor text.toList) := by
  simp only [write, output, hw.write]
  rfl

theorem walk_eq {x : Cursor.Walk α} {a : α} (h : x ctx.cursor = .ok a d) :
    walk x ctx = .ok a (ctx.moved d []) := by
  simp only [walk, h, Context.moved_nil]

theorem skipTrivia_eq {gap : List Char} (hpass : c.Passes gap d) (hruns : Trivia.Runs gap d.ahead)
    (hend : Trivia.next d.ahead = .absent) :
    Cursor.skipTrivia none c = .ok (String.ofList gap) d := by
  simp only [Cursor.skipTrivia, Option.map_none, hpass.ahead, Trivia.lead_append hruns hend,
    List.take_left, ← hpass.eq_pass]
  rfl

theorem copyTriviaUntil_eq (hw : ctx.writer.Works) {limit : Option Nat} {text : String}
    (h : Cursor.skipTrivia limit ctx.cursor = .ok text d) :
    ∃ b, copyTriviaUntil limit ctx = .ok b (ctx.moved d text.toList) := by
  have hworks : (ctx.moved d []).writer.Works := hw.added []
  by_cases hempty : text.isEmpty = true
  · refine ⟨false, bind_ok.2 ⟨_, _, walk_eq h, ?_⟩⟩
    rw [if_pos hempty, String.isEmpty_iff.1 hempty]
    rfl
  · refine ⟨true, bind_ok.2 ⟨_, _, walk_eq h, ?_⟩⟩
    rw [if_neg hempty]
    refine bind_ok.2 ⟨(), _, write_eq hworks _, ?_⟩
    rw [Context.moved_moved]
    rfl

theorem copyTrivia_eq (hw : ctx.writer.Works) {gap : List Char} (hpass : ctx.cursor.Passes gap d)
    (hruns : Trivia.Runs gap d.ahead) (hend : Trivia.next d.ahead = .absent) :
    ∃ b, copyTrivia ctx = .ok b (ctx.moved d gap) := by
  obtain ⟨b, h⟩ := copyTriviaUntil_eq hw (skipTrivia_eq hpass hruns hend)
  rw [String.toList_ofList] at h
  exact ⟨b, h⟩

/-- A token that is ahead is passed, and what is left to do is to write. -/
theorem swap_eq_write {token : String} (hpass : ctx.cursor.Passes token.toList d)
    (replacement : String) :
    swap token replacement ctx = write replacement (ctx.moved d []) := by
  have hstarts : ctx.cursor.startsWith token = true := by
    rw [Cursor.startsWith, List.isPrefixOf_iff_prefix, hpass.ahead]
    exact List.prefix_append _ _
  have hexpect : Cursor.expect token ctx.cursor = .ok () d := by
    simp only [Cursor.expect, hstarts, if_true, hpass.eq_pass, String.length_toList]
  exact bind_eq_of_ok (walk_eq hexpect)

theorem swap_eq (hw : ctx.writer.Works) {token : String} (hpass : ctx.cursor.Passes token.toList d)
    (replacement : String) :
    swap token replacement ctx = .ok () (ctx.moved d replacement.toList) := by
  have hworks : (ctx.moved d []).writer.Works := hw.added []
  rw [swap_eq_write hpass, write_eq hworks, Context.moved_moved]
  rfl

theorem jumpTo_eq (h : d.text = ctx.cursor.text) :
    jumpTo d.offset ctx = .ok () (ctx.moved d []) :=
  walk_eq (by simp only [Cursor.jumpTo, Cursor.at?_of_text_eq h])

theorem copyTrivia_ends (h : ctx.WorksAt c) {gap : List Char} (hpass : c.Passes gap d)
    (hruns : Trivia.Runs gap d.ahead) (hend : Trivia.next d.ahead = .absent) :
    Ends copyTrivia ctx (·.WorksAt d) := by
  obtain ⟨hw, rfl⟩ := h
  obtain ⟨b, heq⟩ := copyTrivia_eq hw hpass hruns hend
  exact .of_eq heq ⟨hw.added gap, rfl⟩

theorem swap_ends (h : ctx.WorksAt c) {token : String} (hpass : c.Passes token.toList d)
    (replacement : String) : Ends (swap token replacement) ctx (·.WorksAt d) := by
  obtain ⟨hw, rfl⟩ := h
  exact .of_eq (swap_eq hw hpass replacement) ⟨hw.added _, rfl⟩

theorem pad_ends (h : ctx.WorksAt c) {needed : Bool} {f : Unit → Rendering α}
    (hf : ∀ after : Context, after.WorksAt c → Ends (f ()) after P) :
    Ends (if needed = true then write " " >>= f else f ()) ctx P := by
  obtain ⟨hw, rfl⟩ := h
  split
  · refine Ends.bind (P := (·.WorksAt ctx.cursor)) ?_ fun _ after => hf after
    exact .of_eq (write_eq hw " ") ⟨hw.added _, rfl⟩
  · exact hf ctx ⟨hw, rfl⟩

/-- An operator in the source is passed with the trivia around it. -/
theorem swapOperator_ends (h : ctx.WorksAt c) {token replacement : String}
    {balanced spaced : Bool} (move : OperatorMove token c d) :
    Ends (swapOperator token replacement balanced spaced) ctx (·.WorksAt d) := by
  refine (copyTrivia_ends h move.passes_before move.runs_before move.absent_before).bind
    fun before ctx₁ h₁ => ?_
  refine Ends.bind (P := (·.WorksAt move.start)) (.of_eq rfl h₁) fun probe ctx₂ h₂ => ?_
  refine pad_ends h₂ fun ctx₃ h₃ => ?_
  refine (swap_ends h₃ move.passes_token replacement).bind fun _ ctx₄ h₄ => ?_
  refine (copyTrivia_ends h₄ move.passes_after move.runs_after move.absent_after).bind
    fun after ctx₅ h₅ => ?_
  split
  · exact .of_eq (write_eq h₅.1 " ") ⟨h₅.1.added _, h₅.2⟩
  · exact .of_eq rfl h₅

theorem enter_of_hasReached {kind : Kind} {extent : Extent}
    (h : ctx.cursor.hasReached extent.start = true) :
    Render.enter kind extent ctx = .ok () ctx := by
  refine bind_ok.2 ⟨ctx, ctx, rfl, ?_⟩
  rw [if_pos h]
  rfl

theorem enter_eq {kind : Kind} {extent : Extent} (h : ctx.cursor.offset = extent.start) :
    Render.enter kind extent ctx = .ok () ctx := by
  refine enter_of_hasReached ?_
  rw [Cursor.hasReached, h, BEq.rfl, Bool.true_or]

theorem replaceExtent_ends (h : ctx.WorksAt c) {extent : Extent} {text : List Char}
    (hpass : c.Passes text d) (hstart : c.offset = extent.start)
    (hstop : d.offset = extent.stop.toNat) (replacement : String) :
    Ends (replaceExtent extent replacement) ctx (·.WorksAt d) := by
  obtain ⟨hw, rfl⟩ := h
  refine .bind_of_eq rfl (.bind_of_eq (hstart ▸ jumpTo_eq rfl) ?_)
  rw [Cursor.slice?_of_passes rfl hpass hstart hstop, Option.getD_some]
  have hworks : (ctx.moved ctx.cursor []).writer.Works := hw.added []
  exact swap_ends ⟨hworks, rfl⟩ (by rwa [String.toList_ofList]) replacement

/-- A modifier in the source is passed, with blanks after it if it is dropped. -/
theorem swapModifier_ends (h : ctx.WorksAt c) {target : Target} {word : ModifierWord}
    {extent : Extent} (hpass : c.Passes word.token.toList d) :
    Ends (swapModifier target word extent) ctx fun after =>
      after.WorksAt d ∨ after.WorksAt (d.pass d.blanksAhead) := by
  refine .bind_of_eq rfl ?_
  cases ctx.declaration with
  | none => exact .refused rfl trivial
  | some declaration =>
    dsimp only
    cases modifierRule target word declaration with
    | keep => exact (swap_ends h hpass _).mono fun _ => .inl
    | replace => exact (swap_ends h hpass _).mono fun _ => .inl
    | drop =>
      refine (swap_ends h hpass _).bind fun _ after hafter => ?_
      obtain ⟨hw, rfl⟩ := hafter
      refine .bind_of_eq (walk_eq rfl) (.of_eq rfl (.inr ⟨hw.added [], rfl⟩))
    | unsupported => exact .refused rfl trivial

/-- A step that starts at another place of the text and stays in it is undone by a jump. -/
theorem revisit_ends (hw : ctx.writer.Works) (ht : c.text = ctx.cursor.text)
    {x : Rendering Unit} (hx : ∀ at' : Context, at'.WorksAt c →
      Ends x at' fun after => after.writer.Works ∧ after.cursor.text = c.text) :
    Ends (Render.revisit c.offset x) ctx (·.WorksAt ctx.cursor) := by
  refine .bind_of_eq rfl (.bind_of_eq (jumpTo_eq ht) ?_)
  refine (hx _ ⟨hw.added [], rfl⟩).bind fun _ after hafter => ?_
  exact .of_eq (jumpTo_eq (ht.symm.trans hafter.2.symm)) ⟨hafter.1.added [], rfl⟩

/-! ## Trivia before a layout -/

theorem skipBlanks_lie {f : Layout} {fs : List Layout} (h : Layout.LieAfter (f :: fs) c e) :
    Layout.LieAfter (f :: fs) (c.pass c.blanksAhead) e := by
  obtain ⟨gap, start, stop, hgap, hruns, hf, hfs⟩ := h
  obtain ⟨gap', hdrop, hruns'⟩ := hruns.dropWhile_isBlank hf.absent
  have hahead : (c.pass c.blanksAhead).ahead = c.ahead.dropWhile isBlank :=
    (Cursor.passes_of_ahead_eq List.takeWhile_append_dropWhile.symm).2
  refine ⟨gap', start, stop, Cursor.passes_of_text_eq ?_ ?_, hruns', hf, hfs⟩
  · rw [Cursor.text_pass, hgap.text_eq]
  · rw [hahead, hgap.ahead, hdrop]

theorem skipLineRest_lie {f : Layout} {fs : List Layout} (h : Layout.LieAfter (f :: fs) c e) :
    ∃ b d, Cursor.skipLineRest c = .ok b d ∧ Layout.LieAfter (f :: fs) d e := by
  have hblanks := skipBlanks_lie h
  obtain ⟨gap, start, stop, hgap, hruns, hf, hfs⟩ := hblanks
  unfold Cursor.skipLineRest
  dsimp only
  split
  · next n hrun =>
    rw [hgap.ahead] at hrun
    obtain ⟨gap', hdrop, hruns'⟩ := hruns.drop_run hf.absent hrun
    refine ⟨true, _, rfl, gap', start, stop, Cursor.passes_of_text_eq ?_ ?_, hruns', hf, hfs⟩
    · rw [Cursor.text_pass, hgap.text_eq]
    · change (c.pass c.blanksAhead).ahead.drop n = gap' ++ start.ahead
      rw [hgap.ahead, hdrop]
  · next hopen =>
    rw [hgap.ahead] at hopen
    exact absurd hopen (hruns.next_ne_unclosed hf.absent)
  · split
    · exact ⟨_, _, rfl, gap, start, stop, hgap, hruns, hf, hfs⟩
    · exact ⟨false, c, rfl, h⟩

/-! ## Layouts ahead -/

/-- The layouts lie ahead of a place of that kind, up to another place. -/
def Stance.At : Stance → List Layout → Cursor → Cursor → Prop
  | .ready => Layout.LieAll
  | .done | .loose => Layout.LieAfter

namespace Stance.At

variable {a : Stance} {f : Layout} {fs : List Layout}

theorem text_eq (h : a.At fs c e) : e.text = c.text := by
  cases a with
  | ready =>
    obtain ⟨_, hpass⟩ := Layout.LieAll.passes h
    exact hpass.text_eq
  | done | loose =>
    obtain ⟨_, hpass⟩ := Layout.LieAfter.passes h
    exact hpass.text_eq

/-- What lies ahead lies in the source. -/
theorem faithfulTo (h : a.At fs c e) (hf : f ∈ fs) : f.FaithfulTo c.text := by
  have hmem : ∃ b e, b.text = c.text ∧ f.Lies b e := by
    cases a with
    | ready => exact Layout.LieAll.exists_of_mem h hf
    | done | loose => exact Layout.LieAfter.exists_of_mem h hf
  obtain ⟨b, e, htext, hlies⟩ := hmem
  exact ⟨b, e, htext, hlies⟩

theorem lieAfter (h : a.At fs c e) (ha : a ≠ .ready) : Layout.LieAfter fs c e := by
  cases a with
  | ready => exact absurd rfl ha
  | done | loose => exact h

/-- The layouts begin after whole runs of trivia, if any are left. -/
theorem exists_start (h : a.At (f :: fs) c e) :
    ∃ gap d, c.Passes gap d ∧ Trivia.Runs gap d.ahead ∧ Trivia.next d.ahead = .absent ∧
      Layout.LieAll (f :: fs) d e := by
  cases a with
  | ready =>
    obtain ⟨stop, hf, hfs⟩ := h
    exact ⟨[], c, .refl c, .nil, hf.absent, stop, hf, hfs⟩
  | done | loose =>
    obtain ⟨gap, start, stop, hgap, hruns, hf, hfs⟩ := h
    exact ⟨gap, start, hgap, hruns, hf.absent, stop, hf, hfs⟩

end Stance.At

/-! ## Scripts that walk a layout -/

namespace Walks

variable {replaces : Prop} {known fs gs rest : List Layout} {a b : Stance} {xs ys : Script}

/-- Something follows a place from which a script goes on, unless it is where the script ends. -/
private theorem append_ne_nil (h : Walks replaces known a ys gs b) (hrest : b ≠ .done → rest ≠ [])
    (ha : a ≠ .done) : gs ++ rest ≠ [] := by
  intro hnil
  obtain ⟨rfl, rfl⟩ := List.append_eq_nil_iff.1 hnil
  by_cases hb : b = .done
  · subst hb
    exact h.ne_nil_of_done ha rfl
  · exact hrest hb rfl

/-- Over a source in which what it walks lies ahead, a script comes to its end, with what is left
still ahead. -/
theorem ends (h : Walks replaces known a xs fs b) (hrest : b ≠ .done → rest ≠ [])
    (hknown : ∀ f ∈ known, f.FaithfulTo e.text) (hw : ctx.writer.Works)
    (hat : a.At (fs ++ rest) ctx.cursor e) :
    Ends (Step.runAll xs) ctx fun after => after.writer.Works ∧ b.At rest after.cursor e := by
  induction h generalizing ctx rest e with
  | nil => exact .of_eq rfl ⟨hw, hat⟩
  | append _ hys ih₁ ih₂ =>
    rw [Step.runAll_append]
    rw [List.append_assoc] at hat
    exact (ih₁ (hys.append_ne_nil hrest) hknown hw hat).bind
      fun _ after h => ih₂ hrest hknown h.1 h.2
  | refuse he => exact .single (.refused rfl he)
  | halt he => exact .single (.refused rfl he)
  | enter hf _ ih =>
    obtain ⟨stop, hlies, _⟩ := id hat
    exact .bind_of_eq (enter_eq (hlies.offset_eq hf).1) (ih hrest hknown hw hat)
  | parts hb hxs ih =>
    obtain ⟨stop, ⟨_, _, _, hparts⟩, hafter⟩ := hat
    have hall := hparts.append (hxs.ne_nil_of_ready hb) hafter
    refine ih hrest (fun g hg => ?_) hw hall
    rcases List.mem_append.1 hg with hg | hg
    · obtain ⟨x, y, htext, hlies⟩ := hparts.exists_of_mem hg
      exact ⟨x, y, htext.trans (Stance.At.text_eq (a := .ready) hall).symm, hlies⟩
    · exact hknown g hg
  | swap =>
    obtain ⟨stop, hlies, hafter⟩ := hat
    exact .single ((swap_ends ⟨hw, rfl⟩ hlies.2 _).mono fun after h => ⟨h.1, h.2 ▸ hafter⟩)
  | operator =>
    obtain ⟨before, start, hbefore, hruns, habsent, stop, htoken, hafter⟩ := hat.exists_start
    obtain ⟨f, fs, rfl⟩ := List.exists_cons_of_ne_nil (hrest nofun)
    obtain ⟨after, d, hpass, hruns', habsent', hlies⟩ :=
      Stance.At.exists_start (a := .done) hafter
    have move : OperatorMove _ ctx.cursor d :=
      ⟨before, start, stop, after, hbefore, hruns, habsent, htoken.2, hpass, hruns', habsent'⟩
    exact .single ((swapOperator_ends ⟨hw, rfl⟩ move).mono fun after h => ⟨h.1, h.2 ▸ hlies⟩)
  | modifier =>
    obtain ⟨stop, htoken, hafter⟩ := hat
    obtain ⟨f, fs, rfl⟩ := List.exists_cons_of_ne_nil (hrest nofun)
    refine .single ((swapModifier_ends ⟨hw, rfl⟩ htoken.2).mono fun after h => ?_)
    rcases h with h | h
    · exact ⟨h.1, h.2 ▸ hafter⟩
    · exact ⟨h.1, h.2 ▸ skipBlanks_lie hafter⟩
  | replace _ hf =>
    obtain ⟨stop, hlies, hafter⟩ := hat
    obtain ⟨hstart, hstop⟩ := hlies.offset_eq hf
    obtain ⟨text, hpass⟩ := hlies.passes
    exact .single ((replaceExtent_ends ⟨hw, rfl⟩ hpass hstart hstop _).mono
      fun after h => ⟨h.1, h.2 ▸ hafter⟩)
  | emit => exact .single (.of_eq (write_eq hw _) ⟨hw.added _, hat⟩)
  | require => exact .single (.of_eq rfl ⟨hw, hat⟩)
  | copyTrivia =>
    obtain ⟨f, fs, rfl⟩ := List.exists_cons_of_ne_nil (hrest nofun)
    obtain ⟨gap, d, hpass, hruns, habsent, hlies⟩ := Stance.At.exists_start hat
    refine .single ((copyTrivia_ends ⟨hw, rfl⟩ hpass hruns habsent).bind fun _ after h => ?_)
    exact .of_eq rfl ⟨h.1, h.2 ▸ hlies⟩
  | skipTrivia =>
    obtain ⟨f, fs, rfl⟩ := List.exists_cons_of_ne_nil (hrest nofun)
    obtain ⟨gap, d, hpass, hruns, habsent, hlies⟩ := Stance.At.exists_start hat
    exact .single (.bind_of_eq (walk_eq (skipTrivia_eq hpass hruns habsent))
      (.of_eq rfl ⟨hw.added [], hlies⟩))
  | skipBlanks ha =>
    obtain ⟨f, fs, rfl⟩ := List.exists_cons_of_ne_nil (hrest nofun)
    exact .single (.bind_of_eq (walk_eq rfl)
      (.of_eq rfl ⟨hw.added [], skipBlanks_lie (hat.lieAfter ha)⟩))
  | skipLineRest ha =>
    obtain ⟨f, fs, rfl⟩ := List.exists_cons_of_ne_nil (hrest nofun)
    obtain ⟨b, d, hskip, hlies⟩ := skipLineRest_lie (hat.lieAfter ha)
    exact .single (.bind_of_eq (walk_eq hskip) (.of_eq rfl ⟨hw.added [], hlies⟩))
  | loosen _ ih => exact ih (absurd rfl) hknown hw hat
  | within _ ih => exact .single (.inDeclaration (ih hrest hknown hw hat))
  | @times _ a xs fs n _ ih =>
    refine .single ?_
    change Ends (repeated (Step.runAll xs) n) ctx _
    induction n generalizing ctx with
    | zero => exact .of_eq rfl ⟨hw, hat⟩
    | succ n ihn =>
      rw [List.replicate_succ, List.flatten_cons, List.append_assoc] at hat
      refine (ih (fun ha => ?_) hknown hw hat).bind fun _ after h => ihn h.1 h.2
      exact List.append_ne_nil_of_right_ne_nil _ (hrest ha)
  | @revisit known f extent xs a hmem hf _ ih =>
    obtain ⟨start, stop, htext, hlies⟩ := hknown f hmem
    obtain ⟨hstart, _⟩ := hlies.offset_eq hf
    have hctx := Stance.At.text_eq hat
    obtain ⟨_, hpass⟩ := hlies.passes
    have hstop : stop.text = e.text := hpass.text_eq.trans htext
    rw [← hstart]
    refine .single ((revisit_ends hw (htext.trans hctx) fun at' hat' => ?_).mono
      fun after h => ⟨h.1, h.2 ▸ hat⟩)
    have hlies' : Layout.LieAll [f] at'.cursor stop := ⟨stop, hat'.2 ▸ hlies, rfl⟩
    refine (ih nofun (hstop ▸ hknown) hat'.1 hlies').mono fun after h => ⟨h.1, ?_⟩
    rw [← show stop = after.cursor from h.2, hpass.text_eq]

end Walks

end Lockstep.Render

namespace Lockstep.Tree

open Config Render Source Text

variable {layout : Layout}

/-- The script of a type, a name, an expression or a statement walks its layout. -/
theorem Node.exists_walks (s : Settings) {node : Node} (h : node.layout? = some layout) :
    layout.extent? = some node.extent ∧ ∃ xs, node.render s = runScript xs ∧
      Walks True [] .ready xs [layout] .done := by
  cases node with
  | type t =>
    cases h
    exact ⟨t.extent?_layout, t.script s, rfl, t.walks s (.inl trivial)⟩
  | name n =>
    cases h
    exact ⟨n.extent?_layout, n.script s, rfl, n.walks s⟩
  | expr e =>
    cases h
    exact ⟨e.extent?_layout, e.script s, rfl, e.walks s (.inl trivial)⟩
  | stmt t =>
    cases h
    exact ⟨t.extent?_layout, t.script s, rfl, t.walks s⟩
  | _ => cases h

/-- Started where it begins, a node that is faithful to the source is rendered up to where it ends,
or it is refused for its own sake; the source is never found to be another. -/
theorem Node.render_of_faithful (s : Settings) {node : Node} {ctx : Context}
    (hlayout : node.layout? = some layout) (hfaithful : layout.FaithfulTo ctx.cursor.text)
    (hstart : ctx.cursor.offset = node.extent.start) (hw : ctx.writer.Works) :
    match node.render s ctx with
    | .ok _ after =>
      after.cursor.text = ctx.cursor.text ∧ after.cursor.offset = node.extent.stop.toNat
    | .error e _ => e.IsRefusal := by
  obtain ⟨hextent, xs, hrender, hwalks⟩ := Node.exists_walks s hlayout
  obtain ⟨start, stop, htext, hlies⟩ := hfaithful
  obtain ⟨hpos, hstop⟩ := hlies.offset_eq hextent
  obtain rfl := Cursor.eq_of_offset_eq htext (hpos.trans hstart.symm)
  have hall : Layout.LieAll [layout] ctx.cursor stop := ⟨stop, hlies, rfl⟩
  have hat : Stance.At .ready ([layout] ++ []) ctx.cursor stop := hall
  have hends := hwalks.ends nofun nofun hw hat
  obtain ⟨_, hpass⟩ := hlies.passes
  rw [hrender]
  unfold Ends at hends
  unfold runScript
  cases hrun : Step.runAll xs ctx with
  | ok u after =>
    simp only [hrun] at hends ⊢
    rw [← show stop = after.cursor from hends.2]
    exact ⟨hpass.text_eq, hstop⟩
  | error e after =>
    simp only [hrun] at hends ⊢
    exact hends

/-- A sum with a comment in it is faithful to its source. -/
theorem Node.render_of_faithful_sum :
    match Node.render (.ofTarget .swift)
      (.expr (.binary ⟨0, 11⟩ (.name (.simple ⟨⟨0, 1⟩, "a"⟩)) .plus
        (.name (.simple ⟨⟨10, 11⟩, "c"⟩)) [])) (.start "a/* b */ +c" true) with
    | .ok _ after => after.cursor.text = "a/* b */ +c".toList ∧ after.cursor.offset = 11
    | .error e _ => e.IsRefusal := by
  have passes (n m : Nat) := ((Cursor.ofText "a/* b */ +c").pass n).passes_pass m
  refine Node.render_of_faithful _ rfl
    ⟨.ofText "a/* b */ +c", (Cursor.ofText "a/* b */ +c").pass 11, rfl, ?_⟩ rfl (.inr rfl)
  refine ⟨rfl, rfl, rfl, _, ⟨rfl, rfl, rfl, _, ⟨rfl, passes 0 1⟩, rfl⟩, ?_⟩
  refine ⟨_, _, _, passes 1 8, ?_, ⟨rfl, passes 9 1⟩, ?_⟩
  · have hcomment : Trivia.next ("/* b */".toList ++ (" ".toList ++ "+c".toList)) =
        .run .blockComment "/* b */".toList.length := rfl
    have hblank : Trivia.next (" ".toList ++ "+c".toList) = .run .blanks " ".toList.length := rfl
    exact .cons hcomment (.single hblank)
  · exact ⟨[], _, _, .refl _, .nil, ⟨rfl, rfl, rfl, _, ⟨rfl, passes 10 1⟩, rfl⟩, rfl⟩

/-! ## Reading the source back -/

/-- An expression that is rendered has been read off the source: what the cursor has passed is its
tokens, none missing and none extra, with whole runs of trivia between them. -/
theorem Expr.render_interleaves (s : Settings) {e : Expr} {ctx ctx' : Context}
    (hkeeps : e.KeepsNames s.target) (hrun : Node.render s (.expr e) ctx = .ok () ctx') :
    ctx.cursor.offset ≤ ctx'.cursor.offset ∧ ∃ text,
      ctx.cursor.Passes text ctx'.cursor ∧ Interleaves e.layout.tokens text ctx'.cursor.ahead := by
  have hwalks : Walks False [] .ready (e.script s) [e.layout] .done := e.walks s (.inr hkeeps)
  obtain ⟨text, hpass, htext⟩ := hwalks.interleaves id hrun
  rw [Layout.allTokens, Layout.allTokens, List.append_nil] at htext
  refine ⟨?_, text, hpass, htext⟩
  rw [hpass.offset]
  exact Nat.le_add_right _ _

/-- What has been passed of a sum with a comment in it. -/
theorem Expr.render_interleaves_sum :
    ∃ after text, Node.render (.ofTarget .swift)
        (.expr (.binary ⟨0, 11⟩ (.name (.simple ⟨⟨0, 1⟩, "a"⟩)) .plus
          (.name (.simple ⟨⟨10, 11⟩, "c"⟩)) [])) (.start "a/* b */ +c" true) = .ok () after ∧
      (Cursor.ofText "a/* b */ +c").Passes text after.cursor ∧
      Interleaves ["a", "+", "c"] text after.cursor.ahead := by
  obtain ⟨after, hrun, _⟩ := runFrom_ok
    (by decide +kernel : runFrom "a/* b */ +c" true (Node.render (.ofTarget .swift)
      (.expr (.binary ⟨0, 11⟩ (.name (.simple ⟨⟨0, 1⟩, "a"⟩)) .plus
        (.name (.simple ⟨⟨10, 11⟩, "c"⟩)) []))) = ⟨none, "a/* b */ + c"⟩)
  obtain ⟨_, text, hpass, htext⟩ := Expr.render_interleaves (.ofTarget .swift)
    (show Expr.KeepsNames .swift (.binary _ (.name _) _ (.name _) []) from
      ⟨trivial, trivial, trivial⟩) hrun
  exact ⟨after, text, hrun, hpass, htext⟩

end Lockstep.Tree
