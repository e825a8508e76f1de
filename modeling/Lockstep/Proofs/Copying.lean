import Lockstep.Proofs.DeclWalk
import Lockstep.Proofs.InPlace

/-!
# Scripts that copy

A script copies if each of its steps writes what it passes. When such a script runs, the text that
it has passed is the text that it has written, and nothing else has changed (`Step.runAll_copies`).
A script that also walks layouts has passed the tokens of these, with whole runs of trivia between
them (`Walks.tokensLie`).

- `Step.AllCopy`: the steps of a script copy.
- `TokensLie`: tokens lie one after another, up to a place.
- `Edit.IsKept`: what C# spells as Java does; the scripts of such expressions copy.
-/

namespace Lockstep

open Config Output Render Source Target Text Lockstep.Tree

namespace Render

variable {d : Option Declaration} {xs ys : Script} {ctx ctx' : Context}

/-! ## Steps that copy -/

mutual

/-- The step writes what it passes; `d` is the declaration at hand. -/
def Step.Copies (d : Option Declaration) : Step → Prop
  | .enter .. | .refuse _ | .copyTrivia => True
  | .swap token replacement => replacement = token
  | .emit text => text = ""
  | .operator token replacement balanced _ => replacement = token ∧ balanced = false
  | .modifier target word _ => ∀ declaration ∈ d, modifierRule target word declaration = .keep
  | .within declaration steps => Step.AllCopy (some declaration) steps
  | .times count steps => count = 0 ∨ Step.AllCopy d steps
  | .skipTrivia | .skipBlanks | .skipLineRest | .replace .. | .require _ | .revisit .. => False

def Step.AllCopy (d : Option Declaration) : List Step → Prop
  | [] => True
  | step :: steps => step.Copies d ∧ Step.AllCopy d steps

end

theorem Step.allCopy_append :
    Step.AllCopy d (xs ++ ys) ↔ Step.AllCopy d xs ∧ Step.AllCopy d ys := by
  induction xs with
  | nil => exact (iff_of_eq (true_and _)).symm
  | cons x xs ih => rw [List.cons_append, Step.AllCopy, Step.AllCopy, ih, and_assoc]

namespace Step.AllCopy

theorem append (h : Step.AllCopy d xs) (h' : Step.AllCopy d ys) : Step.AllCopy d (xs ++ ys) :=
  Step.allCopy_append.2 ⟨h, h'⟩

variable {target : Target} {kind : Tree.Kind} {extent : Extent} {refusal : Refusal}

theorem refuse : Step.AllCopy d (Script.refuse target refusal kind extent) := ⟨trivial, trivial⟩

theorem node (h : Step.AllCopy d xs) : Step.AllCopy d (Script.node target kind extent xs) := by
  unfold Script.node
  split
  · exact ⟨trivial, h⟩
  · exact refuse

/-- A node that is rendered is rendered by a body that copies. -/
theorem of_node_ok (h : Step.AllCopy d (Script.node target kind extent xs))
    (hrun : Step.runAll (Script.node target kind extent xs) ctx = .ok () ctx') :
    Step.AllCopy d xs ∧ Step.runAll xs ctx = .ok () ctx' := by
  refine ⟨?_, runAll_node_ok hrun⟩
  unfold Script.node at h hrun
  split at h
  · exact h.2
  · next hkind =>
    rw [if_neg hkind] at hrun
    cases hrun

theorem copyTrivia : Step.AllCopy d [.copyTrivia] := ⟨trivial, trivial⟩

theorem keep (token : String) : Step.AllCopy d [Script.keep token] := ⟨rfl, trivial⟩

/-- A token with trivia before it. -/
theorem spaced (token : String) : Step.AllCopy d [.copyTrivia, Script.keep token] :=
  ⟨trivial, rfl, trivial⟩

theorem commaSeparated {scripts : List Script} (h : ∀ xs ∈ scripts, Step.AllCopy d xs) :
    Step.AllCopy d (Script.commaSeparated scripts) := by
  induction scripts with
  | nil => exact trivial
  | cons xs rest ih =>
    obtain ⟨hxs, hrest⟩ := List.forall_mem_cons.1 h
    have hfirst := copyTrivia.append hxs
    cases rest with
    | nil => exact hfirst
    | cons ys rest => exact (hfirst.append (spaced ",")).append (ih hrest)

theorem arguments {scripts : List Script} (h : ∀ xs ∈ scripts, Step.AllCopy d xs) :
    Step.AllCopy d (Script.arguments scripts) :=
  ((keep "(").append (commaSeparated h)).append (spaced ")")

end Step.AllCopy

/-! ## Runs that copy -/

/-- The cursor has gone on, and the text that it has passed has been written. -/
def Context.Copied (ctx ctx' : Context) : Prop :=
  ∃ cursor text, ctx.cursor.Passes text cursor ∧ ctx' = ctx.moved cursor text

namespace Context.Copied

theorem refl (ctx : Context) : ctx.Copied ctx :=
  ⟨ctx.cursor, [], .refl _, (Context.moved_self ctx).symm⟩

theorem trans {mid : Context} (h : ctx.Copied mid) (h' : mid.Copied ctx') : ctx.Copied ctx' := by
  obtain ⟨c, text, hpass, rfl⟩ := h
  obtain ⟨c', text', hpass', rfl⟩ := h'
  exact ⟨c', text ++ text', hpass.trans hpass', Context.moved_moved ..⟩

theorem declaration_eq (h : ctx.Copied ctx') : ctx'.declaration = ctx.declaration := by
  obtain ⟨_, _, _, rfl⟩ := h
  rfl

end Context.Copied

theorem swap_copies {token : String} (h : Render.swap token token ctx = .ok () ctx') :
    ctx.Copied ctx' := by
  obtain ⟨cursor, hpass, rfl⟩ := swap_ok h
  exact ⟨cursor, _, hpass, rfl⟩

/-- A modifier that is kept is copied. -/
theorem swapModifier_copies {target : Target} {word : ModifierWord} {extent : Extent}
    (hkeep : ∀ declaration ∈ ctx.declaration, modifierRule target word declaration = .keep)
    (h : swapModifier target word extent ctx = .ok () ctx') : ctx.Copied ctx' := by
  obtain ⟨declaration, hdecl, h⟩ := swapModifier_rule h
  rw [hkeep declaration hdecl] at h
  exact swap_copies h

mutual

theorem Step.run_copies (step : Step) {ctx ctx' : Context} (hcopies : step.Copies ctx.declaration)
    (h : step.run ctx = .ok () ctx') : ctx.Copied ctx' := by
  match step with
  | .enter kind extent => exact enter_ok h ▸ .refl ctx
  | .refuse error => cases h
  | .copyTrivia =>
    obtain ⟨text, cursor, hpass, -, -, rfl⟩ := Step.run_copyTrivia_ok h
    exact ⟨cursor, text, hpass, rfl⟩
  | .swap token replacement =>
    obtain rfl : replacement = token := hcopies
    exact swap_copies h
  | .emit text =>
    obtain rfl : text = "" := hcopies
    have hmoved := write_ok h
    rw [String.toList_empty, Context.moved_self] at hmoved
    exact hmoved ▸ .refl ctx
  | .operator token replacement balanced spaced =>
    obtain ⟨rfl, rfl⟩ : replacement = token ∧ balanced = false := hcopies
    obtain ⟨cursor, move, rfl⟩ := swapOperator_ok h
    rw [move.written_unbalanced]
    exact ⟨cursor, _, move.passes_before.trans (move.passes_token.trans move.passes_after), rfl⟩
  | .modifier target word extent => exact swapModifier_copies hcopies h
  | .within declaration steps =>
    obtain ⟨mid, hsteps, rfl⟩ := inDeclaration_ok h
    have hcopies' : Step.AllCopy (some declaration) steps := hcopies
    obtain ⟨cursor, text, hpass, rfl⟩ := Step.runAll_copies steps hcopies' hsteps
    exact ⟨cursor, text, hpass, rfl⟩
  | .times count steps =>
    replace h : repeated (Step.runAll steps) count ctx = .ok () ctx' := h
    have hcopies' : count = 0 ∨ Step.AllCopy ctx.declaration steps := hcopies
    induction count generalizing ctx with
    | zero => exact repeated_zero_ok.1 h ▸ .refl ctx
    | succ n ih =>
      obtain ⟨mid, hfirst, hrest⟩ := repeated_succ_ok.1 h
      have hsteps := hcopies'.resolve_left (Nat.succ_ne_zero n)
      have hmid := Step.runAll_copies steps hsteps hfirst
      rw [← hmid.declaration_eq] at hsteps
      exact hmid.trans (ih (.inr hsteps) hrest (.inr hsteps))
  | .skipTrivia | .skipBlanks | .skipLineRest | .replace .. | .require _ | .revisit .. =>
    exact hcopies.elim

/-- A script that copies has written what it has passed. -/
theorem Step.runAll_copies (steps : Script) {ctx ctx' : Context}
    (hcopies : Step.AllCopy ctx.declaration steps) (h : Step.runAll steps ctx = .ok () ctx') :
    ctx.Copied ctx' := by
  match steps with
  | [] => exact runAll_nil_ok.1 h ▸ .refl ctx
  | step :: steps =>
    obtain ⟨mid, hstep, hsteps⟩ := runAll_cons_ok.1 h
    have hmid := Step.run_copies step hcopies.1 hstep
    have hcopies' := hcopies.2
    rw [← hmid.declaration_eq] at hcopies'
    exact hmid.trans (Step.runAll_copies steps hcopies' hsteps)

end

end Render

/-! ## Tokens in the source -/

namespace Tree

/-- The tokens lie one after another from `c` on, and what is between the last of them and `d` is
trivia. -/
def TokensLie (tokens : List String) (c d : Cursor) : Prop :=
  ∃ stop gap, Layout.LieAfter (tokens.map .token) c stop ∧ stop.Passes gap d ∧
    Trivia.Runs gap d.ahead

/-- Where a gap ends does not depend on how it is taken apart. -/
theorem trivia_right_unique {c d e : Cursor} {gap gap' : List Char} (hpass : c.Passes gap d)
    (hruns : Trivia.Runs gap d.ahead) (habsent : Trivia.next d.ahead = .absent)
    (hpass' : c.Passes gap' e) (hruns' : Trivia.Runs gap' e.ahead)
    (habsent' : Trivia.next e.ahead = .absent) : d = e := by
  have hskip := skipTrivia_eq hpass hruns habsent
  rw [skipTrivia_eq hpass' hruns' habsent'] at hskip
  exact (EStateM.Result.ok.inj hskip).2.symm

/-- Tokens lie in one place only. -/
theorem Layout.LieAfter.right_unique {tokens : List String} {c d e : Cursor}
    (h : LieAfter (tokens.map .token) c d) (h' : LieAfter (tokens.map .token) c e) : d = e := by
  induction tokens generalizing c with
  | nil => exact Eq.trans h h'.symm
  | cons token tokens ih =>
    obtain ⟨gap, start, stop, hgap, hruns, ⟨habsent, htoken⟩, hrest⟩ := h
    obtain ⟨gap', start', stop', hgap', hruns', ⟨habsent', htoken'⟩, hrest'⟩ := h'
    cases trivia_right_unique hgap hruns habsent hgap' hruns' habsent'
    cases htoken.right_unique htoken'
    exact ih hrest hrest'

namespace TokensLie

variable {tokens tokens' : List String} {c mid d : Cursor} {gap : List Char}

theorem ofRuns (hpass : c.Passes gap d) (hruns : Trivia.Runs gap d.ahead) : TokensLie [] c d :=
  ⟨c, gap, rfl, hpass, hruns⟩

theorem refl (c : Cursor) : TokensLie [] c c := ofRuns (.refl c) .nil

theorem single {token : String} (habsent : Trivia.next c.ahead = .absent)
    (hpass : c.Passes token.toList d) : TokensLie [token] c d :=
  ⟨d, [], ⟨[], c, d, .refl c, .nil, ⟨habsent, hpass⟩, rfl⟩, .refl d, .nil⟩

theorem append (h : TokensLie tokens c mid) (h' : TokensLie tokens' mid d) :
    TokensLie (tokens ++ tokens') c d := by
  obtain ⟨stop, gap, hlie, hpass, hruns⟩ := h
  obtain ⟨stop', gap', hlie', hpass', hruns'⟩ := h'
  cases tokens' with
  | nil =>
    obtain rfl : stop' = mid := hlie'
    rw [List.append_nil]
    exact ⟨stop, gap ++ gap', hlie, hpass.trans hpass', .append (hpass'.ahead ▸ hruns) hruns'⟩
  | cons token tokens' =>
    -- The trivia behind the first tokens join those before the token that follows.
    obtain ⟨before, start, next, hbefore, hbeforeRuns, hfirst, hrest⟩ := hlie'
    refine ⟨stop', gap', ?_, hpass', hruns'⟩
    rw [List.map_append]
    exact hlie.append ⟨gap ++ before, start, next, hpass.trans hbefore,
      .append (hbefore.ahead ▸ hruns) hbeforeRuns, hfirst, hrest⟩

end TokensLie

end Tree

namespace Render

variable {replaces : Prop} {known fs : List Layout} {a b : Stance} {d : Option Declaration}
  {xs : Script} {ctx ctx' : Context}

/-- A script that walks layouts and copies has passed the tokens of these. -/
theorem Walks.tokensLie (h : Walks replaces known a xs fs b) (hcopies : Step.AllCopy d xs)
    (ha : a = .ready → Trivia.next ctx.cursor.ahead = .absent)
    (hrun : Step.runAll xs ctx = .ok () ctx') :
    TokensLie (Layout.allTokens fs) ctx.cursor ctx'.cursor ∧
      (b = .ready → Trivia.next ctx'.cursor.ahead = .absent) := by
  induction h generalizing d ctx ctx' with
  | nil =>
    cases runAll_nil_ok.1 hrun
    exact ⟨.refl _, ha⟩
  | append _ _ ih₁ ih₂ =>
    obtain ⟨mid, hrun₁, hrun₂⟩ := runAll_append_ok.1 hrun
    obtain ⟨hcopies₁, hcopies₂⟩ := Step.allCopy_append.1 hcopies
    obtain ⟨hlie₁, hmid⟩ := ih₁ hcopies₁ ha hrun₁
    obtain ⟨hlie₂, hend⟩ := ih₂ hcopies₂ hmid hrun₂
    rw [Layout.allTokens_append]
    exact ⟨hlie₁.append hlie₂, hend⟩
  | refuse | halt => cases runAll_singleton_ok.1 hrun
  | enter _ _ ih =>
    obtain ⟨mid, henter, hrun⟩ := runAll_cons_ok.1 hrun
    cases enter_ok henter
    exact ih hcopies.2 ha hrun
  | parts _ _ ih =>
    obtain ⟨hlie, hend⟩ := ih hcopies ha hrun
    simp only [Layout.allTokens, Layout.tokens, List.append_nil]
    exact ⟨hlie, hend⟩
  | swap =>
    obtain ⟨cursor, hpass, rfl⟩ := swap_ok (runAll_singleton_ok.1 hrun)
    exact ⟨.single (ha rfl) hpass, by rintro ⟨⟩⟩
  | operator =>
    obtain ⟨cursor, move, rfl⟩ := swapOperator_ok (runAll_singleton_ok.1 hrun)
    have hbefore := TokensLie.ofRuns move.passes_before move.runs_before
    have htoken := TokensLie.single move.absent_before move.passes_token
    have hafter := TokensLie.ofRuns move.passes_after move.runs_after
    exact ⟨(hbefore.append htoken).append hafter, fun _ => move.absent_after⟩
  | modifier =>
    obtain ⟨mid, cursor, blanks, text, hpass, hblanks, hruns, rfl⟩ :=
      swapModifier_ok (runAll_singleton_ok.1 hrun)
    exact ⟨(TokensLie.single (ha rfl) hpass).append (.ofRuns hblanks hruns), by rintro ⟨⟩⟩
  | replace | skipTrivia | skipBlanks | skipLineRest | require | revisit => exact hcopies.1.elim
  | emit =>
    cases write_ok (runAll_singleton_ok.1 hrun)
    exact ⟨.refl _, ha⟩
  | copyTrivia =>
    obtain ⟨text, cursor, hpass, hruns, habsent, rfl⟩ :=
      Step.run_copyTrivia_ok (runAll_singleton_ok.1 hrun)
    exact ⟨.ofRuns hpass hruns, fun _ => habsent⟩
  | loosen _ ih =>
    obtain ⟨hlie, -⟩ := ih hcopies ha hrun
    exact ⟨hlie, by rintro ⟨⟩⟩
  | within _ ih =>
    obtain ⟨mid, hsteps, rfl⟩ := inDeclaration_ok (runAll_singleton_ok.1 hrun)
    have inside := fun habsent => ih hcopies.1 habsent hsteps
    exact inside ha
  | @times _ _ xs fs n _ ih =>
    replace hrun : repeated (Step.runAll xs) n ctx = .ok () ctx' := runAll_singleton_ok.1 hrun
    have hcopies' : n = 0 ∨ Step.AllCopy d xs := hcopies.1
    clear hcopies
    induction n generalizing ctx with
    | zero =>
      cases repeated_zero_ok.1 hrun
      exact ⟨.refl _, ha⟩
    | succ n ihn =>
      obtain ⟨mid, hfirst, hrest⟩ := repeated_succ_ok.1 hrun
      have hsteps := hcopies'.resolve_left (Nat.succ_ne_zero n)
      obtain ⟨hlie₁, hmid⟩ := ih hsteps ha hfirst
      obtain ⟨hlie₂, hend⟩ := ihn hmid hrest (.inr hsteps)
      rw [List.replicate_succ, List.flatten_cons, Layout.allTokens_append]
      exact ⟨hlie₁.append hlie₂, hend⟩

end Render

/-! ## What C# spells as Java does -/

namespace Tree

/-- C# spells it as Java does. -/
def Edit.IsKept : Edit → Prop
  | .trivia _ | .token _ => True
  | .name identifier => Target.csharp.isReserved identifier = false
  | .literal kind spelling => kind.render? .csharp spelling = some spelling
  | .primitive p => p ≠ .boolean ∧ p ≠ .byte
  | .superWord | .instanceOfWord | .openParen | .closeParen => False

theorem escaped_of_not_isReserved {target : Target} {identifier : String}
    (h : target.isReserved identifier = false) : target.escaped identifier = identifier := by
  simp only [Target.escaped, h, Bool.false_eq_true, if_false]

theorem Edit.IsKept.output_eq {edit : Edit} (h : edit.IsKept) : edit.output = edit.source := by
  cases edit with
  | trivia | token => rfl
  | name identifier => exact congrArg String.toList (escaped_of_not_isReserved h)
  | literal kind spelling =>
    have hrender : kind.render? .csharp spelling = some spelling := h
    rw [Edit.output, hrender]
    rfl
  | primitive p =>
    obtain ⟨hboolean, hbyte⟩ := h
    cases p with
    | boolean => exact absurd rfl hboolean
    | byte => exact absurd rfl hbyte
    | _ => rfl
  | superWord | instanceOfWord | openParen | closeParen => exact h.elim

end Tree

namespace Render

/-- A script that makes edits in place copies, if the edits change nothing. -/
theorem InPlace.allCopy {xs : Script} {es : List Edit} (h : InPlace False xs es)
    (hkept : ∀ edit ∈ es, edit.IsKept) (d : Option Declaration) : Step.AllCopy d xs := by
  induction h generalizing d with
  | nil => exact trivial
  | append _ _ ih₁ ih₂ =>
    obtain ⟨h₁, h₂⟩ := List.forall_mem_append.1 hkept
    exact (ih₁ h₁ d).append (ih₂ h₂ d)
  | refuse | copyTrivia => exact ⟨trivial, trivial⟩
  | enter _ ih => exact ⟨trivial, ih hkept d⟩
  | swap edit _ hsource houtput =>
    have hsame := (hkept edit (List.mem_singleton_self edit)).output_eq
    rw [hsource, houtput] at hsame
    exact ⟨String.toList_injective hsame, trivial⟩
  | emit edit _ hsource houtput =>
    have hsame := (hkept edit (List.mem_singleton_self edit)).output_eq
    rw [hsource, houtput] at hsame
    exact ⟨String.toList_eq_nil_iff.1 hsame, trivial⟩
  | operator => exact ⟨⟨rfl, rfl⟩, trivial⟩
  | require h => exact h.elim
  | @times xs es n _ ih =>
    refine ⟨?_, trivial⟩
    cases n with
    | zero => exact .inl rfl
    | succ n =>
      refine .inr (ih (fun edit hedit => hkept edit ?_) d)
      rw [List.replicate_succ, List.flatten_cons]
      exact List.mem_append_left _ hedit
  | within _ ih => exact ⟨ih hkept _, trivial⟩

end Render

end Lockstep
