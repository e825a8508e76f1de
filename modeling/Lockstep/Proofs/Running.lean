import Lockstep.Proofs.CursorMoves
import Lockstep.Proofs.Writing
import Lockstep.Render.Node

/-!
# What a successful step does

One lemma for each step that a script can take: from the state after a step that succeeds it reads
off what the cursor has passed and what has been written. Scripts are opened by `runAll_cons_ok`
and `runAll_append_ok`, so no later proof unfolds a step.

- `Context.moved`: the state after the cursor has gone on and a text has been written.
- `swap_ok`, `copyTrivia_ok`, `swapOperator_ok`, …: the steps.
-/

namespace Lockstep.Render

open Output Source Target Text Lockstep.Tree

variable {α β : Type} {ctx mid ctx' : Context}

/-- The state after the cursor has gone on and a text has been written. -/
def Context.moved (ctx : Context) (cursor : Cursor) (text : List Char) : Context :=
  { ctx with cursor, writer := ctx.writer.added text }

namespace Context

@[simp] theorem cursor_moved (ctx : Context) (c : Cursor) (text : List Char) :
    (ctx.moved c text).cursor = c := rfl

@[simp] theorem moved_self (ctx : Context) : ctx.moved ctx.cursor [] = ctx := by
  simp only [moved, Writer.added_nil]

theorem moved_moved (ctx : Context) (c d : Cursor) (text text' : List Char) :
    (ctx.moved c text).moved d text' = ctx.moved d (text ++ text') := by
  simp only [moved, Writer.added_append]

theorem moved_nil (ctx : Context) (c : Cursor) : ctx.moved c [] = { ctx with cursor := c } := by
  simp only [moved, Writer.added_nil]

end Context

/-! ## Sequences -/

theorem bind_eq_of_ok {x : Rendering α} {f : α → Rendering β} {a : α}
    (h : x ctx = .ok a mid) : (x >>= f) ctx = f a mid := by
  simp only [Bind.bind, EStateM.bind, h]

theorem bind_eq_of_error {x : Rendering α} {f : α → Rendering β} {e : RenderError}
    (h : x ctx = .error e mid) : (x >>= f) ctx = .error e mid := by
  simp only [Bind.bind, EStateM.bind, h]

theorem bind_ok {x : Rendering α} {f : α → Rendering β} {b : β} :
    (x >>= f) ctx = .ok b ctx' ↔ ∃ a mid, x ctx = .ok a mid ∧ f a mid = .ok b ctx' := by
  constructor
  · intro h
    simp only [bind, EStateM.bind] at h
    split at h
    · next a mid hx => exact ⟨a, mid, hx, h⟩
    · cases h
  · rintro ⟨a, mid, hx, hf⟩
    exact (bind_eq_of_ok hx).trans hf

theorem bind_unit_ok {x : Rendering Unit} {f : Unit → Rendering β} {b : β} :
    (x >>= f) ctx = .ok b ctx' ↔ ∃ mid, x ctx = .ok () mid ∧ f () mid = .ok b ctx' := by
  rw [bind_ok]
  constructor
  · rintro ⟨_, mid, h⟩
    exact ⟨mid, h⟩
  · rintro ⟨mid, h⟩
    exact ⟨(), mid, h⟩

theorem runAll_nil_ok : Step.runAll [] ctx = .ok () ctx' ↔ ctx' = ctx :=
  ⟨fun h => by cases h; rfl, fun h => by rw [h]; rfl⟩

theorem runAll_cons_ok {x : Step} {xs : Script} :
    Step.runAll (x :: xs) ctx = .ok () ctx' ↔
      ∃ mid, x.run ctx = .ok () mid ∧ Step.runAll xs mid = .ok () ctx' := by
  rw [Step.runAll]
  exact bind_unit_ok

theorem runAll_singleton_ok {x : Step} :
    Step.runAll [x] ctx = .ok () ctx' ↔ x.run ctx = .ok () ctx' := by
  rw [runAll_cons_ok]
  constructor
  · rintro ⟨mid, hx, hmid⟩
    cases runAll_nil_ok.1 hmid
    exact hx
  · intro h
    exact ⟨ctx', h, rfl⟩

theorem runAll_append_ok {xs ys : Script} :
    Step.runAll (xs ++ ys) ctx = .ok () ctx' ↔
      ∃ mid, Step.runAll xs ctx = .ok () mid ∧ Step.runAll ys mid = .ok () ctx' := by
  rw [Step.runAll_append]
  exact bind_unit_ok

/-! ## Writing -/

theorem write_ok {text : String} (h : write text ctx = .ok () ctx') :
    ctx' = ctx.moved ctx.cursor text.toList := by
  simp only [write, output] at h
  split at h
  · next hw =>
    cases h
    rw [Writer.write_ok hw]
    rfl
  · cases h

/-! ## Trivia -/

theorem walk_ok {x : Cursor.Walk α} {a : α} (h : walk x ctx = .ok a ctx') :
    ∃ cursor, x ctx.cursor = .ok a cursor ∧ ctx' = ctx.moved cursor [] := by
  simp only [walk] at h
  split at h
  · next cursor hx =>
    cases h
    exact ⟨cursor, hx, (ctx.moved_nil cursor).symm⟩
  · cases h

/-- Trivia that are passed are whole runs, and without a limit no run is left. -/
theorem skipTrivia_ok {limit : Option Nat} {c d : Cursor} {text : String}
    (h : Cursor.skipTrivia limit c = .ok text d) :
    c.Passes text.toList d ∧ Trivia.Runs text.toList d.ahead ∧
      (limit = none → Trivia.next d.ahead = .absent) := by
  simp only [Cursor.skipTrivia] at h
  split at h
  · cases h
  · next hclosed =>
    cases h
    rw [String.toList_ofList]
    refine ⟨c.passes_pass _, Trivia.runs_lead _ _, ?_⟩
    rintro rfl
    exact Trivia.next_drop_lead (Bool.not_eq_true _ ▸ hclosed)

theorem copyTriviaUntil_ok {limit : Option Nat} {b : Bool}
    (h : copyTriviaUntil limit ctx = .ok b ctx') :
    ∃ text cursor, Cursor.skipTrivia limit ctx.cursor = .ok text cursor ∧
      b = !text.toList.isEmpty ∧ ctx' = ctx.moved cursor text.toList := by
  simp only [copyTriviaUntil] at h
  obtain ⟨text, mid, hwalk, h⟩ := bind_ok.1 h
  obtain ⟨cursor, hskip, rfl⟩ := walk_ok hwalk
  refine ⟨text, cursor, hskip, ?_⟩
  split at h
  · next hempty =>
    cases h
    rw [String.isEmpty_iff.1 hempty]
    exact ⟨rfl, rfl⟩
  · next hne =>
    obtain ⟨_, mid, hwrite, h⟩ := bind_ok.1 h
    cases h
    rw [write_ok hwrite, Context.cursor_moved, Context.moved_moved, List.nil_append]
    refine ⟨?_, rfl⟩
    cases hl : text.toList with
    | nil => exact absurd (String.isEmpty_iff.2 (String.toList_eq_nil_iff.1 hl)) hne
    | cons c cs => rfl

theorem copyTrivia_ok {b : Bool} (h : copyTrivia ctx = .ok b ctx') :
    ∃ text cursor, ctx.cursor.Passes text cursor ∧ Trivia.Runs text cursor.ahead ∧
      Trivia.next cursor.ahead = .absent ∧ b = !text.isEmpty ∧ ctx' = ctx.moved cursor text := by
  obtain ⟨text, cursor, hskip, hb, rfl⟩ := copyTriviaUntil_ok h
  obtain ⟨hpass, hruns, habsent⟩ := skipTrivia_ok hskip
  exact ⟨text.toList, cursor, hpass, hruns, habsent rfl, hb, rfl⟩

theorem Step.run_copyTrivia_ok (h : Step.copyTrivia.run ctx = .ok () ctx') :
    ∃ text cursor, ctx.cursor.Passes text cursor ∧ Trivia.Runs text cursor.ahead ∧
      Trivia.next cursor.ahead = .absent ∧ ctx' = ctx.moved cursor text := by
  obtain ⟨_, _, hcopy, h⟩ := bind_ok.1 h
  cases h
  obtain ⟨text, cursor, hpass, hruns, habsent, -, rfl⟩ := copyTrivia_ok hcopy
  exact ⟨text, cursor, hpass, hruns, habsent, rfl⟩

theorem skipTriviaUntil_ok {limit : Option Nat} (h : skipTriviaUntil limit ctx = .ok () ctx') :
    ∃ text cursor, ctx.cursor.Passes text cursor ∧ Trivia.Runs text cursor.ahead ∧
      (limit = none → Trivia.next cursor.ahead = .absent) ∧ ctx' = ctx.moved cursor [] := by
  obtain ⟨text, mid, hwalk, h⟩ := bind_ok.1 h
  cases h
  obtain ⟨cursor, hskip, rfl⟩ := walk_ok hwalk
  obtain ⟨hpass, hruns, habsent⟩ := skipTrivia_ok hskip
  exact ⟨_, cursor, hpass, hruns, habsent, rfl⟩

/-- Blanks as far as they go are one run, if there are any. -/
theorem runs_takeWhile_isBlank (cs : List Char) :
    Trivia.Runs (cs.takeWhile isBlank) (cs.dropWhile isBlank) := by
  cases cs with
  | nil => exact .nil
  | cons c rest =>
    by_cases hc : isBlank c = true
    · have hrun : Trivia.next ((c :: rest).takeWhile isBlank ++ (c :: rest).dropWhile isBlank) =
          .run .blanks ((c :: rest).takeWhile isBlank).length := by
        rw [List.takeWhile_append_dropWhile, List.takeWhile_cons_of_pos hc, List.length_cons,
          Nat.add_comm]
        exact Trivia.next_of_isBlank hc
      exact .single hrun
    · rw [List.takeWhile_cons_of_neg hc]
      exact .nil

theorem skipBlanks_eq (h : skipBlanks ctx = .ok () ctx') :
    ctx' = ctx.moved (ctx.cursor.pass ctx.cursor.blanksAhead) [] := by
  obtain ⟨text, mid, hwalk, h⟩ := bind_ok.1 h
  cases h
  obtain ⟨cursor, hskip, rfl⟩ := walk_ok hwalk
  cases hskip
  rfl

theorem skipBlanks_ok (h : skipBlanks ctx = .ok () ctx') :
    ∃ text cursor, ctx.cursor.Passes text cursor ∧ Trivia.Runs text cursor.ahead ∧
      ctx' = ctx.moved cursor [] := by
  obtain ⟨hpass, hrest⟩ := Cursor.passes_of_ahead_eq
    (List.takeWhile_append_dropWhile (p := isBlank) (l := ctx.cursor.ahead)).symm
  refine ⟨_, _, hpass, ?_, skipBlanks_eq h⟩
  rw [hrest]
  exact runs_takeWhile_isBlank _

/-! ## Tokens -/

theorem expect_ok {c d : Cursor} {token : String} (h : Cursor.expect token c = .ok () d) :
    c.Passes token.toList d := by
  simp only [Cursor.expect] at h
  split at h
  · next hstarts =>
    cases h
    obtain ⟨rest, hrest⟩ := List.isPrefixOf_iff_prefix.1 hstarts
    exact (Cursor.passes_of_ahead_eq hrest.symm).1
  · cases h

theorem swap_ok {token replacement : String} (h : swap token replacement ctx = .ok () ctx') :
    ∃ cursor, ctx.cursor.Passes token.toList cursor ∧
      ctx' = ctx.moved cursor replacement.toList := by
  obtain ⟨_, mid, hwalk, hwrite⟩ := bind_ok.1 h
  obtain ⟨cursor, hexpect, rfl⟩ := walk_ok hwalk
  refine ⟨cursor, expect_ok hexpect, ?_⟩
  rw [write_ok hwrite, Context.moved_moved]
  rfl

/-! ## Operators -/

/-- A space, if there has to be one. -/
def pad (needed : Bool) : List Char := if needed then " ".toList else []

theorem write_pad_ok {needed : Bool}
    (h : (if needed = true then write " " else pure ()) ctx = .ok () ctx') :
    ctx' = ctx.moved ctx.cursor (pad needed) := by
  cases needed with
  | true =>
    rw [if_pos rfl] at h
    exact write_ok h
  | false =>
    rw [if_neg Bool.false_ne_true] at h
    cases h
    exact ctx.moved_self.symm

theorem pad_bind_ok {needed : Bool} {f : Unit → Rendering α} {a : α}
    (h : (if needed = true then write " " >>= f else f ()) ctx = .ok a ctx') :
    f () (ctx.moved ctx.cursor (pad needed)) = .ok a ctx' := by
  cases needed with
  | true =>
    rw [if_pos rfl] at h
    obtain ⟨_, mid, hwrite, h⟩ := bind_ok.1 h
    rw [write_ok hwrite] at h
    exact h
  | false =>
    rw [if_neg Bool.false_ne_true] at h
    rw [pad, if_neg Bool.false_ne_true, Context.moved_self]
    exact h

/-- The parts in which a binary operator is passed: trivia, the token, and trivia. -/
structure OperatorMove (token : String) (c d : Cursor) where
  before : List Char
  start : Cursor
  stop : Cursor
  after : List Char
  passes_before : c.Passes before start
  runs_before : Trivia.Runs before start.ahead
  absent_before : Trivia.next start.ahead = .absent
  passes_token : start.Passes token.toList stop
  passes_after : stop.Passes after d
  runs_after : Trivia.Runs after d.ahead
  absent_after : Trivia.next d.ahead = .absent

namespace OperatorMove

variable {token : String} {c d : Cursor} (move : OperatorMove token c d)

/-- Whether a space is put in before the operator. -/
def padsBefore (balanced spaced : Bool) : Bool :=
  balanced && move.before.isEmpty &&
    (spaced || move.start.triviaFollows (byteLength token.toList))

/-- Whether a space is put in after the operator. -/
def padsAfter (balanced spaced : Bool) : Bool :=
  balanced && move.after.isEmpty && (spaced || !move.before.isEmpty)

/-- The text that is written. -/
def written (replacement : String) (balanced spaced : Bool) : List Char :=
  move.before ++ pad (move.padsBefore balanced spaced) ++ replacement.toList ++ move.after ++
    pad (move.padsAfter balanced spaced)

theorem written_unbalanced (replacement : String) (spaced : Bool) :
    move.written replacement false spaced = move.before ++ (replacement.toList ++ move.after) := by
  simp only [written, padsBefore, padsAfter, Bool.false_and, pad, Bool.false_eq_true, if_false,
    List.append_nil, List.append_assoc]

end OperatorMove

theorem swapOperator_ok {token replacement : String} {balanced spaced : Bool}
    (h : swapOperator token replacement balanced spaced ctx = .ok () ctx') :
    ∃ cursor, ∃ move : OperatorMove token ctx.cursor cursor,
      ctx' = ctx.moved cursor (move.written replacement balanced spaced) := by
  obtain ⟨_, ctx₁, hbefore, h⟩ := bind_ok.1 h
  obtain ⟨before, c₁, hpass₁, hruns₁, habsent₁, rfl, rfl⟩ := copyTrivia_ok hbefore
  obtain ⟨_, _, hget, h⟩ := bind_ok.1 h
  cases hget
  obtain ⟨_, ctx₂, hswap, h⟩ := bind_ok.1 (pad_bind_ok h)
  obtain ⟨c₂, hpass₂, rfl⟩ := swap_ok hswap
  obtain ⟨_, ctx₃, hafter, h⟩ := bind_ok.1 h
  obtain ⟨after, c₃, hpass₃, hruns₃, habsent₃, rfl, rfl⟩ := copyTrivia_ok hafter
  let move : OperatorMove token ctx.cursor c₃ :=
    ⟨before, c₁, c₂, after, hpass₁, hruns₁, habsent₁, hpass₂, hpass₃, hruns₃, habsent₃⟩
  refine ⟨c₃, move, ?_⟩
  rw [write_pad_ok h]
  simp only [Context.moved_moved, Context.cursor_moved, OperatorMove.written,
    OperatorMove.padsBefore, OperatorMove.padsAfter, move, Bool.not_not]

/-! ## Jumps, repetitions and declarations -/

theorem jumpTo_ok {pos : Nat} (h : jumpTo pos ctx = .ok () ctx') :
    ∃ cursor, cursor.text = ctx.cursor.text ∧ cursor.offset = pos ∧
      ctx' = ctx.moved cursor [] := by
  obtain ⟨cursor, hjump, rfl⟩ := walk_ok h
  simp only [Cursor.jumpTo] at hjump
  split at hjump
  · next d hd =>
    cases hjump
    obtain ⟨htext, hoffset⟩ := Cursor.at?_eq_some_iff.1 hd
    exact ⟨_, htext, hoffset, rfl⟩
  · cases hjump

theorem replaceExtent_ok {extent : Extent} {text : String}
    (h : replaceExtent extent text ctx = .ok () ctx') :
    ∃ cursor, ctx' = ctx.moved cursor text.toList := by
  obtain ⟨_, _, hget, h⟩ := bind_ok.1 h
  cases hget
  obtain ⟨_, _, hjump, h⟩ := bind_ok.1 h
  obtain ⟨_, -, -, rfl⟩ := jumpTo_ok hjump
  obtain ⟨cursor, -, rfl⟩ := swap_ok h
  exact ⟨cursor, Context.moved_moved ..⟩

/-- The part of the source that an extent covers is passed if it is ahead. -/
theorem replaceExtent_ok_of_passes {extent : Extent} {text : String} {covered : List Char}
    {cursor : Cursor} (h : replaceExtent extent text ctx = .ok () ctx')
    (hpass : ctx.cursor.Passes covered cursor) (hstart : ctx.cursor.offset = extent.start)
    (hstop : cursor.offset = extent.stop.toNat) : ctx' = ctx.moved cursor text.toList := by
  obtain ⟨_, _, hget, h⟩ := bind_ok.1 h
  cases hget
  rw [Cursor.slice?_of_passes rfl hpass hstart hstop, Option.getD_some] at h
  obtain ⟨_, mid, hjump, hswap⟩ := bind_ok.1 h
  obtain ⟨start, htext, hoffset, rfl⟩ := jumpTo_ok hjump
  obtain rfl := Cursor.eq_of_offset_eq htext (hoffset.trans hstart.symm)
  obtain ⟨stop, hpass', rfl⟩ := swap_ok hswap
  rw [String.toList_ofList] at hpass'
  rw [hpass'.right_unique hpass, Context.moved_moved, List.nil_append]

/-- After a step from another offset the cursor is back, if the step has kept to its text. -/
theorem revisit_ok {pos : Nat} {x : Rendering Unit} (h : Render.revisit pos x ctx = .ok () ctx') :
    ∃ start mid, start.text = ctx.cursor.text ∧ start.offset = pos ∧
      x (ctx.moved start []) = .ok () mid ∧
      (mid.cursor.text = start.text → ctx' = mid.moved ctx.cursor []) := by
  obtain ⟨_, _, hget, h⟩ := bind_ok.1 h
  cases hget
  obtain ⟨_, ctx₁, hthere, h⟩ := bind_ok.1 h
  obtain ⟨start, htext, hpos, rfl⟩ := jumpTo_ok hthere
  obtain ⟨_, mid, hx, hback⟩ := bind_ok.1 h
  obtain ⟨cursor, htext', hoffset, rfl⟩ := jumpTo_ok hback
  refine ⟨start, mid, htext, hpos, hx, fun hmid => ?_⟩
  rw [Cursor.eq_of_offset_eq (htext'.trans (hmid.trans htext)) hoffset]

theorem inDeclaration_ok {declaration : Declaration} {x : Rendering α} {a : α}
    (h : inDeclaration declaration x ctx = .ok a ctx') :
    ∃ mid, x { ctx with declaration := some declaration } = .ok a mid ∧
      ctx' = { mid with declaration := ctx.declaration } := by
  simp only [inDeclaration] at h
  split at h
  · next mid hx =>
    cases h
    exact ⟨mid, hx, rfl⟩
  · cases h

theorem repeated_zero_ok {x : Rendering Unit} :
    repeated x 0 ctx = .ok () ctx' ↔ ctx' = ctx :=
  ⟨fun h => by cases h; rfl, fun h => by rw [h]; rfl⟩

theorem repeated_succ_ok {x : Rendering Unit} {n : Nat} :
    repeated x (n + 1) ctx = .ok () ctx' ↔
      ∃ mid, x ctx = .ok () mid ∧ repeated x n mid = .ok () ctx' := by
  rw [repeated]
  exact bind_unit_ok

theorem require_ok {name : String} (h : Render.require name ctx = .ok () ctx') :
    ctx' = { ctx with required := addNew ctx.required name } := by
  cases h
  rfl

theorem enter_ok {kind : Kind} {extent : Extent}
    (h : Render.enter kind extent ctx = .ok () ctx') : ctx' = ctx := by
  obtain ⟨_, _, hget, h⟩ := bind_ok.1 h
  cases hget
  split at h
  · cases h
    rfl
  · cases h

theorem hasReached_of_enter {kind : Kind} {extent : Extent}
    (h : Render.enter kind extent ctx = .ok () ctx') :
    ctx.cursor.hasReached extent.start = true := by
  obtain ⟨_, _, hget, h⟩ := bind_ok.1 h
  cases hget
  split at h
  · next hreached => exact hreached
  · cases h

/-- A modifier that is rendered is one of a declaration, and its rule says what becomes of it. -/
theorem swapModifier_rule {target : Target} {word : ModifierWord} {extent : Extent}
    (h : swapModifier target word extent ctx = .ok () ctx') :
    ∃ declaration, ctx.declaration = some declaration ∧
      match modifierRule target word declaration with
      | .keep => swap word.token word.token ctx = .ok () ctx'
      | .replace text => swap word.token text ctx = .ok () ctx'
      | .drop => ∃ mid, swap word.token "" ctx = .ok () mid ∧ skipBlanks mid = .ok () ctx'
      | .unsupported => False := by
  obtain ⟨_, _, hget, h⟩ := bind_ok.1 h
  cases hget
  cases hdecl : ctx.declaration with
  | none =>
    rw [hdecl] at h
    cases h
  | some declaration =>
    refine ⟨declaration, rfl, ?_⟩
    simp only [hdecl] at h
    cases hrule : modifierRule target word declaration with
    | keep | replace =>
      simp only [hrule] at h
      exact h
    | drop =>
      simp only [hrule] at h
      obtain ⟨_, mid, hswap, hblanks⟩ := bind_ok.1 h
      exact ⟨mid, hswap, hblanks⟩
    | unsupported =>
      simp only [hrule] at h
      cases h

/-- After a modifier the cursor is just behind it, or behind the blanks that follow. -/
theorem swapModifier_cases {target : Target} {word : ModifierWord} {extent : Extent}
    (h : swapModifier target word extent ctx = .ok () ctx') :
    ∃ mid text, ctx.cursor.Passes word.token.toList mid ∧
      (ctx' = ctx.moved mid text ∨ ctx' = ctx.moved (mid.pass mid.blanksAhead) text) := by
  obtain ⟨declaration, -, h⟩ := swapModifier_rule h
  split at h
  · obtain ⟨cursor, hpass, rfl⟩ := swap_ok h
    exact ⟨cursor, _, hpass, .inl rfl⟩
  · obtain ⟨cursor, hpass, rfl⟩ := swap_ok h
    exact ⟨cursor, _, hpass, .inl rfl⟩
  · obtain ⟨_, hswap, hblanks⟩ := h
    obtain ⟨mid, hpass, rfl⟩ := swap_ok hswap
    refine ⟨mid, "".toList ++ [], hpass, .inr ?_⟩
    rw [skipBlanks_eq hblanks, Context.cursor_moved, Context.moved_moved]
  · exact h.elim

/-- A modifier that is rendered is passed, with blanks after it if it is dropped. -/
theorem swapModifier_ok {target : Target} {word : ModifierWord} {extent : Extent}
    (h : swapModifier target word extent ctx = .ok () ctx') :
    ∃ mid cursor blanks text, ctx.cursor.Passes word.token.toList mid ∧
      mid.Passes blanks cursor ∧ Trivia.Runs blanks cursor.ahead ∧
      ctx' = ctx.moved cursor text := by
  obtain ⟨mid, text, hpass, rfl | rfl⟩ := swapModifier_cases h
  · exact ⟨mid, mid, [], text, hpass, .refl _, .nil, rfl⟩
  · obtain ⟨hblanks, hrest⟩ := Cursor.passes_of_ahead_eq
      (List.takeWhile_append_dropWhile (p := isBlank) (l := mid.ahead)).symm
    refine ⟨mid, _, _, text, hpass, hblanks, ?_, rfl⟩
    rw [hrest]
    exact runs_takeWhile_isBlank _

/-- The rest of a line is blanks and a line break, or it is left alone. -/
theorem skipLineRest_passes {c d : Cursor} {b : Bool} (h : Cursor.skipLineRest c = .ok b d) :
    ∃ text, c.Passes text d ∧ Trivia.Runs text d.ahead := by
  obtain ⟨hpass, hrest⟩ := Cursor.passes_of_ahead_eq
    (List.takeWhile_append_dropWhile (p := isBlank) (l := c.ahead)).symm
  have hblanks := runs_takeWhile_isBlank c.ahead
  rw [← hrest] at hblanks
  simp only [Cursor.skipLineRest] at h
  split at h
  · next n hrun =>
    cases h
    have hbreak := Cursor.passes_pass (c.pass c.blanksAhead) n
    refine ⟨_, hpass.trans hbreak, .append ?_ (.single (Trivia.take_run hrun))⟩
    rw [← hbreak.ahead]
    exact hblanks
  · cases h
  · split at h
    · cases h
      exact ⟨_, hpass, hblanks⟩
    · cases h
      exact ⟨[], .refl _, .nil⟩

theorem skipLineRest_ok {b : Bool} (h : skipLineRest ctx = .ok b ctx') :
    ∃ text cursor, ctx.cursor.Passes text cursor ∧ Trivia.Runs text cursor.ahead ∧
      ctx' = ctx.moved cursor [] := by
  obtain ⟨cursor, hskip, rfl⟩ := walk_ok h
  obtain ⟨text, hpass, hruns⟩ := skipLineRest_passes hskip
  exact ⟨text, cursor, hpass, hruns, rfl⟩

theorem Step.run_skipLineRest_ok (h : Step.skipLineRest.run ctx = .ok () ctx') :
    ∃ text cursor, ctx.cursor.Passes text cursor ∧ Trivia.Runs text cursor.ahead ∧
      ctx' = ctx.moved cursor [] := by
  obtain ⟨_, _, hskip, h⟩ := bind_ok.1 h
  cases h
  exact skipLineRest_ok hskip

/-- A node that is rendered is rendered by its body. -/
theorem runAll_node_ok {target : Target} {kind : Kind} {extent : Extent} {body : Script}
    (h : Step.runAll (Script.node target kind extent body) ctx = .ok () ctx') :
    Step.runAll body ctx = .ok () ctx' := by
  unfold Script.node at h
  split at h
  · obtain ⟨mid, henter, hbody⟩ := runAll_cons_ok.1 h
    obtain rfl := enter_ok henter
    exact hbody
  · cases h

/-! ## Whole runs -/

theorem runFrom_ok {source received : String} {accepts : Bool} {x : Rendering Unit}
    (h : runFrom source accepts x = ⟨none, received⟩) :
    ∃ after, x (.start source accepts) = .ok () after ∧ after.writer.sink.received = received := by
  simp only [runFrom] at h
  split at h
  · next after hx =>
    cases h
    exact ⟨after, hx, rfl⟩
  · cases h

/-- What a rendering has added to, if it succeeds. -/
def runsTo (x : Rendering Unit) (ctx : Context) : Option String :=
  match x ctx with
  | .ok _ after => some after.writer.current
  | .error .. => none

theorem runsTo_ok {x : Rendering Unit} {out : String} (h : runsTo x ctx = some out) :
    ∃ after, x ctx = .ok () after ∧ after.writer.current = out := by
  simp only [runsTo] at h
  split at h
  · next after hx => exact ⟨after, hx, Option.some.inj h⟩
  · cases h

end Lockstep.Render
