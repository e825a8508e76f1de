import Lockstep.Proofs.OutputChunks

/-!
# Types are written alike each time

Swift has the type of a declaration behind each name, so that one type of the source is rendered
many times over, from the same place but with other texts before it. What is written is the same
each time: the script of a type looks at nothing but the source (`TypeRef.settled`), and a writer
does not confuse texts (`Writer.added_injective`).

- `Settled`: where a script ends and what it writes depends on where it begins only.
- `Settled.writesAt_unique`: from one place of a source such a script writes one text.
-/

namespace Lockstep

open Config Output Render Source Target Text

/-! ## What has been written -/

namespace Output

variable {width : Nat} {lineStart : Bool} {cs ds : List Char}

theorem indented_cons (c : Char) :
    indented width lineStart (c :: cs) =
      (if lineStart && !isLineBreak c then List.replicate width ' ' else []) ++
        c :: indented width (isLineBreak c) cs := by
  cases hc : isLineBreak c <;> cases lineStart <;> simp [indented, hc]

/-- No space is a line break, so whether a text begins with one is not changed. -/
theorem head?_indented (c : Char) :
    (indented width lineStart (c :: cs)).head?.map isLineBreak = some (isLineBreak c) := by
  have hspace : isLineBreak ' ' = false := rfl
  rw [indented_cons]
  cases hc : isLineBreak c <;> cases lineStart <;> cases width <;>
    simp [hc, hspace, List.replicate_succ]

theorem indented_cons_ne_nil (c : Char) : indented width lineStart (c :: cs) ≠ [] := by
  rw [indented_cons]
  exact List.append_ne_nil_of_right_ne_nil _ (List.cons_ne_nil _ _)

theorem indented_injective (h : indented width lineStart cs = indented width lineStart ds) :
    cs = ds := by
  induction cs generalizing lineStart ds with
  | nil =>
    cases ds with
    | nil => rfl
    | cons d ds => exact absurd h.symm (indented_cons_ne_nil d)
  | cons c cs ih =>
    cases ds with
    | nil => exact absurd h (indented_cons_ne_nil c)
    | cons d ds =>
      have hhead := congrArg (fun text => text.head?.map isLineBreak) h
      simp only [head?_indented, Option.some.injEq] at hhead
      rw [indented_cons, indented_cons, hhead, List.append_cancel_left_eq, List.cons.injEq] at h
      rw [h.1, ih h.2]

theorem Writer.added_injective (w : Writer) (h : w.added cs = w.added ds) : cs = ds := by
  have hcurrent := congrArg Writer.current h
  rw [Writer.current_added, Writer.current_added, String.append_right_inj,
    String.ofList_inj] at hcurrent
  exact indented_injective hcurrent

end Output

namespace Render

open Lockstep.Tree

/-! ## Settled scripts -/

/-- From the same place the script goes to the same place, and it writes the same text. -/
def Settled (xs : Script) : Prop :=
  ∀ ctx ctx' after after' : Context, ctx'.cursor = ctx.cursor →
    Step.runAll xs ctx = .ok () after → Step.runAll xs ctx' = .ok () after' →
    after'.cursor = after.cursor ∧ ∃ text, after.writer = ctx.writer.added text ∧
      after'.writer = ctx'.writer.added text

namespace Settled

variable {xs ys : Script}

theorem nil : Settled [] := by
  intro ctx ctx' after after' hcursor h h'
  rw [runAll_nil_ok.1 h, runAll_nil_ok.1 h']
  exact ⟨hcursor, [], (Writer.added_nil _).symm, (Writer.added_nil _).symm⟩

theorem append (hxs : Settled xs) (hys : Settled ys) : Settled (xs ++ ys) := by
  intro ctx ctx' after after' hcursor h h'
  obtain ⟨mid, hfirst, hrest⟩ := runAll_append_ok.1 h
  obtain ⟨mid', hfirst', hrest'⟩ := runAll_append_ok.1 h'
  obtain ⟨hmid, text, hwriter, hwriter'⟩ := hxs _ _ _ _ hcursor hfirst hfirst'
  obtain ⟨hafter, more, hmore, hmore'⟩ := hys _ _ _ _ hmid hrest hrest'
  refine ⟨hafter, text ++ more, ?_, ?_⟩
  · rw [hmore, hwriter, Writer.added_append]
  · rw [hmore', hwriter', Writer.added_append]

/-- A step is settled if the source says where it goes and what it writes. -/
theorem step {x : Step} (Q : Cursor → Cursor → List Char → Prop)
    (hunique : ∀ {c d d' text text'}, Q c d text → Q c d' text' → d' = d ∧ text' = text)
    (hstep : ∀ {ctx after : Context}, x.run ctx = .ok () after → ∃ text,
      Q ctx.cursor after.cursor text ∧ after.writer = ctx.writer.added text) :
    Settled [x] := by
  intro ctx ctx' after after' hcursor h h'
  obtain ⟨text, hq, hwriter⟩ := hstep (runAll_singleton_ok.1 h)
  obtain ⟨text', hq', hwriter'⟩ := hstep (runAll_singleton_ok.1 h')
  rw [hcursor] at hq'
  obtain ⟨hafter, rfl⟩ := hunique hq hq'
  exact ⟨hafter, text', hwriter, hwriter'⟩

theorem refuse {e : RenderError} : Settled [.refuse e] := by
  intro ctx ctx' after after' _ h
  cases runAll_singleton_ok.1 h

theorem enter {kind : Kind} {extent : Extent} : Settled [.enter kind extent] := by
  refine step (fun c d text => d = c ∧ text = []) ?_ fun {ctx after} h => ⟨[], ?_⟩
  · rintro c _ _ _ _ ⟨rfl, rfl⟩ ⟨rfl, rfl⟩
    exact ⟨rfl, rfl⟩
  · rw [enter_ok h]
    exact ⟨⟨rfl, rfl⟩, (Writer.added_nil _).symm⟩

theorem require {name : String} : Settled [.require name] := by
  refine step (fun c d text => d = c ∧ text = []) ?_ fun {ctx after} h => ⟨[], ?_⟩
  · rintro c _ _ _ _ ⟨rfl, rfl⟩ ⟨rfl, rfl⟩
    exact ⟨rfl, rfl⟩
  · rw [require_ok h]
    exact ⟨⟨rfl, rfl⟩, (Writer.added_nil _).symm⟩

theorem emit {text : String} : Settled [.emit text] := by
  refine step (fun c d written => d = c ∧ written = text.toList) ?_
    fun {ctx after} h => ⟨text.toList, ?_⟩
  · rintro c _ _ _ _ ⟨rfl, rfl⟩ ⟨rfl, rfl⟩
    exact ⟨rfl, rfl⟩
  · rw [write_ok h]
    exact ⟨⟨rfl, rfl⟩, rfl⟩

theorem swap {token text : String} : Settled [.swap token text] := by
  refine step (fun c d written => c.Passes token.toList d ∧ written = text.toList) ?_
    fun {ctx after} h => ⟨text.toList, ?_⟩
  · rintro c d d' _ _ ⟨hpass, rfl⟩ ⟨hpass', rfl⟩
    exact ⟨hpass'.right_unique hpass, rfl⟩
  · obtain ⟨stop, hpass, rfl⟩ := swap_ok h
    exact ⟨⟨hpass, rfl⟩, rfl⟩

theorem copyTrivia : Settled [.copyTrivia] := by
  refine step (fun c d text => c.Passes text d ∧ Trivia.Runs text d.ahead ∧
    Trivia.next d.ahead = .absent) ?_ fun {ctx after} h => ?_
  · rintro c d d' text text' ⟨hpass, hruns, habsent⟩ ⟨hpass', hruns', habsent'⟩
    obtain rfl := trivia_right_unique hpass hruns habsent hpass' hruns' habsent'
    exact ⟨rfl, List.append_cancel_right (hpass'.ahead.symm.trans hpass.ahead)⟩
  · obtain ⟨text, start, hpass, hruns, habsent, rfl⟩ := Step.run_copyTrivia_ok h
    exact ⟨text, ⟨hpass, hruns, habsent⟩, rfl⟩

theorem skipTrivia : Settled [.skipTrivia] := by
  refine step (fun c d text => (∃ gap, c.Passes gap d ∧ Trivia.Runs gap d.ahead ∧
    Trivia.next d.ahead = .absent) ∧ text = []) ?_ fun {ctx after} h => ⟨[], ?_⟩
  · rintro c d d' _ _ ⟨⟨gap, hpass, hruns, habsent⟩, rfl⟩ ⟨⟨gap', hpass', hruns', habsent'⟩, rfl⟩
    exact ⟨(trivia_right_unique hpass hruns habsent hpass' hruns' habsent').symm, rfl⟩
  · obtain ⟨gap, start, hpass, hruns, habsent, rfl⟩ := skipTriviaUntil_ok h
    exact ⟨⟨⟨gap, hpass, hruns, habsent rfl⟩, rfl⟩, rfl⟩

theorem replace {x : Extent} {text : String} : Settled [.replace x text] := by
  refine step (fun c d written => ∃ start : Cursor, start.text = c.text ∧ start.offset = x.start ∧
    start.Passes ((c.slice? x).getD "").toList d ∧ written = text.toList) ?_
    fun {ctx after} h => ⟨text.toList, ?_⟩
  · rintro c d d' _ _ ⟨start, htext, hstart, hpass, rfl⟩ ⟨start', htext', hstart', hpass', rfl⟩
    obtain rfl := Cursor.eq_of_offset_eq (htext.trans htext'.symm) (hstart.trans hstart'.symm)
    exact ⟨hpass'.right_unique hpass, rfl⟩
  · obtain ⟨_, _, hget, h⟩ := bind_ok.1 h
    cases hget
    obtain ⟨_, _, hjump, h⟩ := bind_ok.1 h
    obtain ⟨start, htext, hstart, rfl⟩ := jumpTo_ok hjump
    obtain ⟨stop, hpass, rfl⟩ := swap_ok h
    refine ⟨⟨start, htext, hstart, hpass, rfl⟩, ?_⟩
    rw [Context.moved_moved]
    rfl

theorem times {n : Nat} (h : Settled xs) : Settled [.times n xs] := by
  intro ctx ctx' after after' hcursor hrun hrun'
  replace hrun : repeated (Step.runAll xs) n ctx = .ok () after := runAll_singleton_ok.1 hrun
  replace hrun' : repeated (Step.runAll xs) n ctx' = .ok () after' := runAll_singleton_ok.1 hrun'
  induction n generalizing ctx ctx' with
  | zero =>
    rw [repeated_zero_ok.1 hrun, repeated_zero_ok.1 hrun']
    exact ⟨hcursor, [], (Writer.added_nil _).symm, (Writer.added_nil _).symm⟩
  | succ n ih =>
    obtain ⟨mid, hfirst, hrest⟩ := repeated_succ_ok.1 hrun
    obtain ⟨mid', hfirst', hrest'⟩ := repeated_succ_ok.1 hrun'
    obtain ⟨hmid, text, hwriter, hwriter'⟩ := h _ _ _ _ hcursor hfirst hfirst'
    obtain ⟨hafter, more, hmore, hmore'⟩ := ih _ _ hmid hrest hrest'
    refine ⟨hafter, text ++ more, ?_, ?_⟩
    · rw [hmore, hwriter, Writer.added_append]
    · rw [hmore', hwriter', Writer.added_append]

theorem node {target : Target} {kind : Kind} {extent : Extent} (h : Settled xs) :
    Settled (Script.node target kind extent xs) := by
  unfold Script.node
  split
  · exact enter.append h
  · exact refuse

end Settled

theorem settled_sequence : Sequence fun _ xs _ _ => Settled xs where
  nil := Settled.nil
  append := Settled.append
  refuse _ := Settled.refuse
  entered _ := Settled.node
  parts _ _ h := h
  swap := Settled.swap
  emit := Settled.emit
  copyTrivia := Settled.copyTrivia

/-- What a settled script writes from a place of a source is one text. -/
theorem Settled.writesAt_unique {src text text' : List Char} {pos : Nat} {xs : Script}
    (hxs : Settled xs) (h : WritesAt src pos xs text) (h' : WritesAt src pos xs text') :
    text' = text := by
  obtain ⟨ctx, after, htext, hpos, hrun, hwriter⟩ := h
  obtain ⟨ctx', after', htext', hpos', hrun', hwriter'⟩ := h'
  have hcursor : ctx'.cursor = ctx.cursor :=
    Cursor.eq_of_offset_eq (htext'.trans htext.symm) (hpos'.trans hpos.symm)
  obtain ⟨-, same, hsame, hsame'⟩ := hxs _ _ _ _ hcursor hrun hrun'
  rw [ctx'.writer.added_injective (hwriter'.symm.trans hsame'),
    ctx.writer.added_injective (hwriter.symm.trans hsame)]

end Render

namespace Tree

open Render.Settled in
theorem arrayScript_settled (target : Target) {element : Script} (n : Nat)
    (h : Settled element) : Settled (arrayScript target element n) := by
  unfold arrayScript
  split
  · have hclosing : Settled closingBracket :=
      skipTrivia.append (swap.append (skipTrivia.append swap))
    exact ((Settled.times .emit).append h).append (.times hclosing)
  · have hbrackets : Settled brackets :=
      copyTrivia.append (swap.append (copyTrivia.append swap))
    exact h.append (.times hbrackets)

/-- Where the script of a type ends and what it writes depends on where it begins only. -/
theorem TypeRef.settled (s : Settings) (type : TypeRef) : Settled (type.script s) := by
  match type with
  | .primitive extent word => exact .node .swap
  | .named extent n none => exact .node (n.passes s settled_sequence)
  | .named extent n (some binding) =>
    have hrequirement : Settled (binding.requirement s) := by
      unfold TypeBinding.requirement
      split
      · exact .require
      · exact .nil
    refine .node (hrequirement.append ?_)
    split
    · exact .replace
    · exact n.passes s settled_sequence
  | .array extent element dimensions =>
    rw [TypeRef.script]
    exact .node (arrayScript_settled _ _ (element.settled s))
  | .parameterized .. | .wildcard _ => exact .node .refuse

end Tree

end Lockstep
