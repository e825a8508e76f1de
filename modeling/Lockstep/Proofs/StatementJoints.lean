import Lockstep.Proofs.Gaps
import Lockstep.Proofs.NodeLayout
import Lockstep.Proofs.Restoring
import Lockstep.Proofs.RunningUnits
import Lockstep.Proofs.WrittenTrivia

/-!
# What stands between two statements of Swift

A statement of Swift is rendered without its semicolon. What is written between the last token of a
statement or a member and the next one is then just the trivia that the source has there, before
and behind the semicolon (`Node.items_joined`). So the two are on different lines if the source has
a line break there, outside comments; if it has none, nothing sets them apart
(`Node.items_run_together`), though Swift wants a line break or a semicolon between them.

- `Separates`: the runs hold a line break or a semicolon outside comments.
- `Node.items`: the statements of a block, or the members of a class.
- `Joint`: what is written between two of them.
-/

namespace Lockstep.Source

open Text

/-! ## Separators among trivia -/

/-- The characters of runs of trivia that are not in a comment. -/
def visible (rs : List PlacedRun) : List Char :=
  rs.flatMap fun r => if r.isComment then [] else r.text

/-- There is a line break or a semicolon outside comments. -/
def Separates (rs : List PlacedRun) : Prop :=
  ∃ c ∈ visible rs, isLineBreak c = true ∨ c = ';'

variable {c d : Cursor} {rs rs' : List PlacedRun}

theorem separates_append : Separates (rs ++ rs') ↔ Separates rs ∨ Separates rs' := by
  simp only [Separates, visible, List.flatMap_append, List.mem_append, or_and_right, exists_or]

/-- Of the runs of trivia only line breaks separate. -/
theorem Trivia.IsRun.separates_iff {kind : TriviaKind} {text rest : List Char}
    (h : Trivia.IsRun kind text rest) (start : Nat) :
    Separates [⟨kind, start, text⟩] ↔ kind = .lineBreak := by
  unfold Separates visible
  rw [List.flatMap_singleton]
  cases h with
  | lineFeed | carriageReturn | bothFeeds =>
    exact iff_of_true ⟨_, List.mem_cons_self, .inl rfl⟩ rfl
  | lineComment | blockComment => exact iff_of_false (fun ⟨_, hc, _⟩ => nomatch hc) nofun
  | blanks _ hblank =>
    refine iff_of_false ?_ nofun
    rintro ⟨ch, hch, hbreak | rfl⟩
    · rw [isLineBreak_eq_false_of_isBlank (hblank ch hch)] at hbreak
      cases hbreak
    · exact absurd (hblank _ hch) (by decide)

/-- Trivia of a source separate if there is a line break among them. -/
theorem Cursor.RunsTo.separates_iff (h : c.RunsTo rs d) :
    Separates rs ↔ ∃ r ∈ rs, r.kind = .lineBreak := by
  induction h with
  | nil => exact iff_of_false (fun ⟨_, hc, _⟩ => nomatch hc) fun ⟨_, hr, _⟩ => nomatch hr
  | @cons c mid d kind text rs hrun hpass _ ih =>
    rw [hpass.ahead] at hrun
    have hfirst := (Trivia.isRun_of_next hrun).separates_iff c.offset
    rw [← List.singleton_append, separates_append, hfirst, ih]
    simp only [List.singleton_append, List.mem_cons, or_and_right, exists_or, exists_eq_left]

end Lockstep.Source

namespace Lockstep

open Config Output Render Source Target Text

namespace Render

/-! ## Joints -/

/-- From the end of one item to the beginning of the next nothing is written but the runs, which are
those that the source has there, before and behind the semicolon if there is one. -/
structure Joint (semicolon : Bool) (ctx after : Context) (rs : List PlacedRun) : Prop where
  source : ∃ before stop next behind, rs = before ++ behind ∧ ctx.cursor.RunsTo before stop ∧
    stop.Passes (if semicolon then [';'] else []) next ∧ next.RunsTo behind after.cursor
  written : after = ctx.moved after.cursor (rs.flatMap PlacedRun.text)

namespace Joint

variable {ctx after : Context} {semicolon : Bool} {rs : List PlacedRun}

/-- What is written separates if the source has a line break there. -/
theorem separates_iff (h : Joint semicolon ctx after rs) :
    Separates rs ↔ ∃ r ∈ rs, r.kind = .lineBreak := by
  obtain ⟨before, stop, next, behind, rfl, hbefore, _, hbehind⟩ := h.source
  rw [separates_append, hbefore.separates_iff, hbehind.separates_iff]
  simp only [List.mem_append, or_and_right, exists_or]

/-- Trivia that are copied are the runs up to the next token. -/
theorem of_copyTrivia (h : Step.runAll [.copyTrivia] ctx = .ok () after) :
    ∃ rs, ctx.cursor.RunsTo rs after.cursor ∧
      after = ctx.moved after.cursor (rs.flatMap PlacedRun.text) := by
  obtain ⟨text, cursor, hpass, hruns, -, rfl⟩ :=
    Step.run_copyTrivia_ok (runAll_singleton_ok.1 h)
  obtain ⟨rs, hrs⟩ := Cursor.exists_runsTo hpass hruns
  have htext : text = rs.flatMap PlacedRun.text :=
    List.append_cancel_right (hpass.ahead.symm.trans hrs.passes.ahead)
  exact ⟨rs, hrs, by rw [htext]; rfl⟩

/-- Between two items of which the first ends in a brace there is a gap. -/
theorem of_gap (h : Step.runAll [.copyTrivia] ctx = .ok () after) :
    ∃ rs, Joint false ctx after rs := by
  obtain ⟨rs, hrs, hwritten⟩ := of_copyTrivia h
  exact ⟨rs, ⟨[], ctx.cursor, ctx.cursor, rs, rfl, .nil, .refl _, hrs⟩, hwritten⟩

/-- Of a semicolon and the trivia behind it nothing but the trivia are written. -/
theorem of_semicolon (h : Step.runAll [.swap ";" "", .copyTrivia] ctx = .ok () after) :
    ∃ rs, Joint true ctx after rs := by
  obtain ⟨mid, hswap, hgap⟩ := runAll_cons_ok.1 h
  obtain ⟨next, hpass, rfl⟩ := swap_ok hswap
  obtain ⟨rs, hrs, hwritten⟩ := of_copyTrivia hgap
  refine ⟨rs, ⟨[], ctx.cursor, next, rs, rfl, .nil, hpass, hrs⟩, ?_⟩
  rw [hwritten, Context.moved_moved]
  rfl

/-- Of a semicolon with trivia on both sides nothing but the trivia are written. -/
theorem of_terminator
    (h : Step.runAll [.copyTrivia, .swap ";" "", .copyTrivia] ctx = .ok () after) :
    ∃ rs, Joint true ctx after rs := by
  rw [← List.singleton_append] at h
  obtain ⟨mid, hcopy, hrest⟩ := runAll_append_ok.1 h
  obtain ⟨before, hbefore, hmid⟩ := of_copyTrivia hcopy
  obtain ⟨atStop, hswap, hgap⟩ := runAll_cons_ok.1 hrest
  obtain ⟨next, hpass, rfl⟩ := swap_ok hswap
  obtain ⟨behind, hbehind, hwritten⟩ := of_copyTrivia hgap
  refine ⟨before ++ behind, ⟨before, mid.cursor, next, behind, rfl, hbefore, hpass, hbehind⟩, ?_⟩
  rw [hwritten, hmid, Context.moved_moved, Context.moved_moved, List.flatMap_append]
  rfl

end Joint

/-- A node of which the last steps are known is rendered by some steps and those. -/
theorem Script.exists_core {target : Target} {kind : Tree.Kind} {extent : Extent}
    {body ending : Script} {ctx after : Context}
    (h : Step.runAll (Script.node target kind extent (body ++ ending)) ctx = .ok () after) :
    ∃ core, core ++ ending = Script.node target kind extent (body ++ ending) := by
  unfold Script.node at h ⊢
  split at h
  · next hsupports => exact ⟨.enter kind extent :: body, (if_pos hsupports).symm⟩
  · nomatch runAll_singleton_ok.1 h

end Render

namespace Tree

/-! ## Bodies -/

/-- The statements of a block, or the members of a class or an interface. -/
def Node.items : Node → List Node
  | .stmt (.block _ statements) => statements.map .stmt
  | .member (.type _ members) => members.map .member
  | _ => []

/-- The script of a statement or a member. -/
def Node.itemScript (s : Settings) : Node → Script
  | .stmt t => t.script s
  | .member m => m.script s
  | _ => []

/-- Whether a statement or a member ends in a semicolon. -/
def Node.isTerminated : Node → Bool
  | .stmt (.expression ..) | .stmt (.declare ..) | .stmt (.returns ..) | .stmt (.doLoop ..)
  | .stmt (.jump ..) | .stmt (.throws ..) | .stmt (.empty _) | .member (.field _) => true
  | .member (.method m) => m.body.isNone
  | _ => false

/-- The steps for the semicolon of an item. -/
def Node.ending (s : Settings) : Node → Script
  | .stmt (.empty _) => [.swap ";" (if s.target.profile.hasTerminator then ";" else "")]
  | item => if item.isTerminated then Script.terminator s.target else []

/-- Items one after another, with the trivia before each. -/
def Node.itemScripts (s : Settings) (items : List Node) : Script :=
  items.flatMap fun item => .copyTrivia :: item.itemScript s

/-- The steps before the items of a body. -/
def Node.opening (s : Settings) : Node → Script
  | .member (.type header _) => header.script s
  | _ => [Script.keep "\x7b"]

/-- The steps after the items of a body. -/
def Node.closing : Script := [.copyTrivia, Script.keep "\x7d"]

variable {s : Settings} {node item x y : Node} {ctx after : Context}

/-- The script of an item ends in the steps for its semicolon. -/
theorem Node.exists_core (hrun : Step.runAll (item.itemScript s) ctx = .ok () after) :
    ∃ core, core ++ item.ending s = item.itemScript s := by
  cases item with
  | stmt t =>
    cases t with
    | block | ifElse | whileLoop | other => exact ⟨_, List.append_nil _⟩
    | empty => exact @Script.exists_core _ _ _ [] _ _ _ hrun
    | jump word extent label =>
      cases label with
      | none => exact Script.exists_core hrun
      | some => nomatch runAll_singleton_ok.1 (runAll_node_ok hrun)
    | _ => exact Script.exists_core hrun
  | member m =>
    cases m with
    | method m =>
      cases hbody : m.body with
      | none =>
        have hending : Node.ending s (.member (.method m)) = m.bodyScript s := by
          simp only [Node.ending, Node.isTerminated, MethodDecl.bodyScript, hbody,
            Option.isNone_none, if_true]
        rw [hending]
        exact Script.exists_core hrun
      | some body =>
        have hending : Node.ending s (.member (.method m)) = [] := by
          simp only [Node.ending, Node.isTerminated, hbody, Option.isNone_some,
            Bool.false_eq_true, if_false]
        exact ⟨_, by rw [hending, List.append_nil]⟩
    | field => exact Script.exists_core hrun
    | type | setup => exact ⟨_, List.append_nil _⟩
  | _ => exact ⟨_, List.append_nil _⟩

/-- From the end of an item of Swift to the next token nothing is written but trivia. -/
theorem Node.exists_joint (hswift : s.target = .swift)
    (hrun : Step.runAll (x.ending s ++ [.copyTrivia]) ctx = .ok () after) :
    ∃ rs, Joint x.isTerminated ctx after rs := by
  unfold Node.ending at hrun
  rw [hswift] at hrun
  split at hrun
  · exact Joint.of_semicolon hrun
  · cases hterminated : x.isTerminated with
    | true =>
      rw [hterminated] at hrun
      exact Joint.of_terminator hrun
    | false =>
      rw [hterminated] at hrun
      exact Joint.of_gap hrun

theorem Stmt.scripts_eq (s : Settings) (statements : List Stmt) :
    Stmt.scripts s statements = Node.itemScripts s (statements.map .stmt) := by
  induction statements with
  | nil => rfl
  | cons t ts ih =>
    rw [Stmt.scripts, ih]
    rfl

theorem Member.scripts_eq (s : Settings) (members : List Member) :
    Member.scripts s members = Node.itemScripts s (members.map .member) := by
  induction members with
  | nil => rfl
  | cons m ms ih =>
    rw [Member.scripts, ih]
    rfl

/-- The items of a node that is rendered are rendered one after another. -/
theorem Node.runs_items (hitems : node.items ≠ []) (hrun : node.render s ctx = .ok () after) :
    Step.runAll (node.opening s ++ Node.itemScripts s node.items ++ Node.closing) ctx =
      .ok () after := by
  cases node with
  | stmt t =>
    cases t with
    | block extent statements =>
      replace hrun := runAll_node_ok hrun
      rwa [Stmt.scripts_eq] at hrun
    | _ => exact absurd rfl hitems
  | member m =>
    cases m with
    | type header members =>
      replace hrun := runAll_node_ok hrun
      split at hrun
      · rwa [Member.scripts_eq] at hrun
      · nomatch runAll_singleton_ok.1 hrun
    | _ => exact absurd rfl hitems
  | _ => exact absurd rfl hitems

/-- A rendering of a body, where it has come to the end of an item and where it begins with the
next. What is between the two of the source, and what of the output, are the runs, less a semicolon
of the source. -/
structure Node.Meeting (s : Settings) (node : Node) (front : List Node) (x y : Node)
    (back : List Node) (ctx after : Context) (rs : List PlacedRun) (endX atY : Context) : Prop where
  ends : ∃ core, core ++ x.ending s = x.itemScript s ∧
    Step.runAll (node.opening s ++ Node.itemScripts s front ++ .copyTrivia :: core) ctx =
      .ok () endX
  joint : Joint x.isTerminated endX atY rs
  begins : Step.runAll (y.itemScript s ++ (Node.itemScripts s back ++ Node.closing)) atY =
    .ok () after
  text : endX.cursor.text = ctx.cursor.text
  output : ∃ before behind, endX.writer = ctx.writer.added before ∧
    after.writer = ctx.writer.added (before ++ rs.flatMap PlacedRun.text ++ behind)

/-- Between two items of a body on Swift the output has just the trivia that the source has there,
before and behind the semicolon. So there is a line break or a semicolon between them, outside
comments, if and only if the source has a line break there, outside comments. -/
theorem Node.items_joined {front back : List Node} (hswift : s.target = .swift)
    (hitems : node.items = front ++ x :: y :: back) (hrun : node.render s ctx = .ok () after) :
    ∃ rs endX atY, Node.Meeting s node front x y back ctx after rs endX atY ∧
      (Separates rs ↔ ∃ r ∈ rs, r.kind = .lineBreak) := by
  have hne : node.items ≠ [] := by simp [hitems]
  have hall := Node.runs_items hne hrun
  have hscript : node.opening s ++ Node.itemScripts s node.items ++ Node.closing =
      (node.opening s ++ Node.itemScripts s front ++ [.copyTrivia]) ++ (x.itemScript s ++
        ([.copyTrivia] ++ (y.itemScript s ++ (Node.itemScripts s back ++ Node.closing)))) := by
    simp only [hitems, Node.itemScripts, List.flatMap_append, List.flatMap_cons,
      List.append_assoc, List.cons_append, List.nil_append]
  rw [hscript] at hall
  obtain ⟨atX, hfront, hall⟩ := runAll_append_ok.1 hall
  obtain ⟨behindX, hx, hall⟩ := runAll_append_ok.1 hall
  obtain ⟨atY, hgap, hrest⟩ := runAll_append_ok.1 hall
  obtain ⟨core, hcore⟩ := Node.exists_core hx
  rw [← hcore] at hx
  obtain ⟨endX, hstop, hending⟩ := runAll_append_ok.1 hx
  obtain ⟨rs, hjoint⟩ := Node.exists_joint hswift (runAll_append_ok.2 ⟨behindX, hending, hgap⟩)
  have hends := runAll_append_ok.2 ⟨atX, hfront, hstop⟩
  obtain ⟨before, hbefore⟩ := Step.runAll_adds _ hends
  obtain ⟨behind, hbehind⟩ := Step.runAll_adds _ hrest
  refine ⟨rs, endX, atY, ⟨⟨core, hcore, ?_⟩, hjoint, hrest, ?_, before, behind, hbefore, ?_⟩,
    hjoint.separates_iff⟩
  · rwa [List.append_assoc _ [_], List.singleton_append] at hends
  · exact ((Step.runAll_leaves _).ok hends).text
  · rw [hbehind, hjoint.written, Context.moved, hbefore, Writer.added_append, Writer.added_append]

/-- On lines of their own two statements stay apart. -/
theorem Node.items_joined_lines :
    let count (name : String) (pos : UInt32) : Stmt := .expression ⟨pos, pos + 4⟩
      (.step ⟨pos, pos + 3⟩ (.name (.simple ⟨⟨pos, pos + 1⟩, name⟩)) .increment)
    let node : Node := .stmt (.block ⟨0, 14⟩ [count "a" 2, count "b" 8])
    let ctx : Context := .start "\x7b a++;\n b++; \x7d" true
    let output := "\x7b a += 1\n b += 1 \x7d"
    ∃ after, node.render (.ofTarget .swift) ctx = .ok () after ∧ after.writer.current = output ∧
      ∃ rs endX atY,
        Node.Meeting (.ofTarget .swift) node [] (.stmt (count "a" 2)) (.stmt (count "b" 8)) [] ctx
          after rs endX atY ∧ (Separates rs ↔ ∃ r ∈ rs, r.kind = .lineBreak) := by
  intro count node ctx output
  obtain ⟨after, hrun, houtput⟩ := runsTo_ok
    (by decide +kernel : runsTo (node.render (.ofTarget .swift)) ctx = some output)
  exact ⟨after, hrun, houtput, Node.items_joined rfl rfl hrun⟩

/-- Two statements of one line are rendered with a mere blank between them, which Swift does not
read as two statements. -/
theorem Node.items_run_together :
    let count (name : String) (pos : UInt32) : Stmt := .expression ⟨pos, pos + 4⟩
      (.step ⟨pos, pos + 3⟩ (.name (.simple ⟨⟨pos, pos + 1⟩, name⟩)) .increment)
    let node : Node := .stmt (.block ⟨0, 13⟩ [count "a" 2, count "b" 7])
    let source := "\x7b a++; b++; \x7d"
    let output := "\x7b a += 1 b += 1 \x7d"
    (∃ layout, node.layout? = some layout ∧ layout.FaithfulTo source.toList) ∧
      renderNode (.ofTarget .swift) source true node = ⟨none, output⟩ ∧
      ∀ c ∈ output.toList, isLineBreak c = false ∧ c ≠ ';' := by
  intro count node source output
  let place (n : Nat) := (Cursor.ofText "\x7b a++; b++; \x7d").pass n
  have passes (n m : Nat) : (place n).Passes _ _ := (place n).passes_pass m
  have adjacent {f : Layout} {fs : List Layout} {c d e : Cursor} (hf : f.Lies c d)
      (hfs : Layout.LieAfter fs d e) : Layout.LieAfter (f :: fs) c e :=
    ⟨[], c, d, .refl c, .nil, hf, hfs⟩
  refine ⟨⟨_, rfl, place 0, place 13, rfl, rfl, rfl, rfl, place 1, ⟨rfl, passes 0 1⟩,
    ⟨_, _, place 6, passes 1 1, .single rfl, ⟨rfl, rfl, rfl, place 5, ?a, ?_⟩,
      _, _, place 11, passes 6 1, .single rfl, ⟨rfl, rfl, rfl, place 10, ?b, ?_⟩,
      _, _, place 13, passes 11 1, .single rfl, ⟨rfl, passes 12 1⟩, rfl⟩⟩,
    by decide +kernel, by decide⟩
  case a =>
    exact ⟨rfl, rfl, rfl, place 3, ⟨rfl, rfl, rfl, _, ⟨rfl, passes 2 1⟩, rfl⟩,
      adjacent ⟨rfl, passes 3 2⟩ rfl⟩
  case b =>
    exact ⟨rfl, rfl, rfl, place 8, ⟨rfl, rfl, rfl, _, ⟨rfl, passes 7 1⟩, rfl⟩,
      adjacent ⟨rfl, passes 8 2⟩ rfl⟩
  · exact adjacent ⟨rfl, passes 5 1⟩ rfl
  · exact adjacent ⟨rfl, passes 10 1⟩ rfl

end Tree

end Lockstep
