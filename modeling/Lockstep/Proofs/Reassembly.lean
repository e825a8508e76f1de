import Lockstep.Proofs.ImportWalk
import Lockstep.Proofs.Restoring

/-!
# A file is put together again

The two rounds of a rendering take a file apart into its package, its imports and its type, with
gaps of white space and comments between them. Here it is followed how they come together: each gap
is written once, in its place, but for the rest of a line that a package or a dropped import has
left (`Trimmed`), and the text after the type is indented where the type is put in a block.

- `CompilationUnit.LiesIn`: the parts of a unit lie in a source, with these gaps between them.
- `HeadText`, `ImportsText`, `BodyText`: what is written for the parts, with the gaps.
- `renderImports_writes`, `renderBody_writes`, `PackageLies.returns`: how the rounds write them.
- `CompilationUnit.render_reassembles`: the theorem about units.
-/

namespace Lockstep

open Config Output Render Source Target Text

namespace Tree

/-! ## What is written -/

/-- Of a gap, blanks and one line break may be missing at its front. -/
inductive Trimmed : List Char → List Char → Prop where
  | whole : Trimmed gap gap
  | line : (∀ c ∈ blanks, isBlank c = true) →
      lineBreak ∈ ["\n".toList, "\r".toList, "\r\n".toList] →
      Trimmed (blanks ++ (lineBreak ++ gap)) gap

section

variable (source : List Char)

/-- A rendering of what an extent covers, from one end to the other, writes the text. -/
def Writes (x : Rendering Unit) (extent : Extent) (text : List Char) : Prop :=
  ∃ ctx after : Context, ctx.cursor.text = source ∧ ctx.cursor.offset = extent.start ∧
    x ctx = .ok () after ∧ after.cursor.offset = extent.stop.toNat ∧
    after.writer = ctx.writer.added text

/-- A rendering of what an extent covers leaves the output alone. -/
def Drops (x : Rendering Unit) (extent : Extent) : Prop :=
  ∃ ctx after : Context, ctx.cursor.text = source ∧ ctx.cursor.offset = extent.start ∧
    x ctx = .ok () after ∧ after.writer = ctx.writer

/-- A rendering of the package writes the text and indents what follows. -/
def PackageDecl.Opens (s : Settings) (p : PackageDecl) (text : List Char) : Prop :=
  ∃ ctx after : Context, ctx.cursor.text = source ∧ ctx.cursor.offset = p.extent.start ∧
    p.render s ctx = .ok () after ∧
    after.writer = (ctx.writer.added text).indentBy s.indentWidth

/-- What is written for the gaps around a package, or for the gap before everything else. -/
inductive HeadText : List (List Char) → List Char → Prop where
  | single : HeadText [gap] gap
  | package : Trimmed gap' kept → HeadText [gap, gap'] (gap ++ kept)

/-- What is written for imports and the gaps between them. The gap before the first of them is
`before`, and `left` is what is to be written of the gap after the last. -/
inductive ImportsText (s : Settings) :
    List ImportDecl → (before : List Char) → List (List Char) → List Char →
      (left : List Char) → Prop where
  | nil : ImportsText s [] gap [] [] gap
  | kept : Writes source (i.render s) i.extent text →
      ImportsText s imports gap gaps out left →
      ImportsText s (i :: imports) before (gap :: gaps) (before ++ (text ++ out)) left
  | dropped : Drops source (i.render s) i.extent → Trimmed gap gap' →
      ImportsText s imports gap' gaps out left →
      ImportsText s (i :: imports) before (gap :: gaps) (before ++ out) left

/-- What is written for a type and the gap after it. In a block they are indented. -/
inductive BodyText (s : Settings) (type : TypeDecl) (last : List Char) :
    Option PackageDecl → List Char → Prop where
  | bare : (package.isSome = true → opensNamespace s.target = false) →
      Writes source (runScript (type.script s)) type.header.extent text →
      BodyText s type last package (text ++ last)
  | block : opensNamespace s.target = true →
      p.Opens source s (line ++ " \x7b\n".toList) →
      Writes source (runScript (type.script s)) type.header.extent text →
      closing ∈ ["\x7d\n".toList, "\n\x7d\n".toList] →
      BodyText s type last (some p) (line ++ " \x7b\n".toList ++
        (indented s.indentWidth true text ++
          indented s.indentWidth (endsLine true text) last) ++ closing)

end

/-! ## Where the parts lie -/

/-- The package, if there is one, lies with a gap before and a gap after it. -/
inductive PackageLies : Option PackageDecl → List (List Char) → Cursor → Cursor → Prop where
  | absent : c.Passes gap d → Trivia.Runs gap d.ahead → PackageLies none [gap] c d
  | present : c.Passes gap start → Trivia.Runs gap start.ahead → p.layout.Lies start stop →
      stop.Passes gap' d → Trivia.Runs gap' d.ahead → PackageLies (some p) [gap, gap'] c d

/-- The source consists of the parts of the unit, in their places, with gaps around them: those
around the package, those after the imports, and the last after the type. -/
def CompilationUnit.LiesIn (u : CompilationUnit) (source : String) (head gaps : List (List Char))
    (last : List Char) : Prop :=
  ∃ type c begin stop, u.types = [type] ∧ PackageLies u.package head (.ofText source) c ∧
    ImportsLie u.imports gaps c begin ∧ type.toMember.Lies begin stop ∧ stop.ahead = last ∧
    Trivia.Runs last []

/-! ## Trivia up to a limit -/

theorem copyTriviaUntil_passes {ctx after : Context} {d : Cursor} {gap : List Char} {limit : Nat}
    {b : Bool} (hpass : ctx.cursor.Passes gap d) (hruns : Trivia.Runs gap d.ahead)
    (hlimit : d.offset ≤ limit) (hend : Trivia.next d.ahead = .absent ∨ d.offset = limit)
    (h : copyTriviaUntil (some limit) ctx = .ok b after) : after = ctx.moved d gap := by
  obtain ⟨text, cursor, hskip, -, rfl⟩ := copyTriviaUntil_ok h
  rw [skipTrivia_until_eq hpass hruns hlimit hend] at hskip
  cases hskip
  rw [String.toList_ofList]

/-! ## The rest of a line -/

theorem skipLineRest_trims {c c' d : Cursor} {gap : List Char} {b : Bool}
    (hpass : c.Passes gap d) (hruns : Trivia.Runs gap d.ahead)
    (hbegins : Begins d) (hne : d.ahead ≠ []) (h : Cursor.skipLineRest c = .ok b c') :
    ∃ gap', Trimmed gap gap' ∧ c'.Passes gap' d ∧ Trivia.Runs gap' d.ahead := by
  have hnot {kind : TriviaKind} {n : Nat} (hkind : kind ≠ .blockComment) :
      Trivia.next d.ahead ≠ .run kind n := by
    rcases hbegins with hd | ⟨m, hd⟩
    · rw [hd]
      exact nofun
    · rw [hd]
      rintro ⟨⟩
      exact hkind rfl
  have hblankKind : TriviaKind.blanks ≠ .blockComment := by simp
  have hbreakKind : TriviaKind.lineBreak ≠ .blockComment := by simp
  obtain ⟨gap₁, hgap, hruns₁⟩ := hruns.split_blanks fun n => hnot hblankKind
  rw [← hpass.ahead] at hgap
  have hpass₁ : (c.pass c.blanksAhead).Passes gap₁ d := (hgap ▸ hpass).drop
  have hblanks : ∀ x ∈ c.ahead.takeWhile isBlank, isBlank x = true :=
    List.all_eq_true.1 List.all_takeWhile
  simp only [Cursor.skipLineRest] at h
  split at h
  · next n hrun =>
    cases h
    have hlineBreak := Trivia.take_lineBreak hrun
    rw [hpass₁.ahead] at hrun
    have hbreak : Trivia.next d.ahead ≠ .run .lineBreak n := hnot hbreakKind
    obtain ⟨lineBreak, gap', rfl, rfl, hruns'⟩ := hruns₁.split_run hbreak hrun
    rw [hpass₁.ahead, List.append_assoc, List.take_left] at hlineBreak
    exact ⟨gap', hgap ▸ .line hblanks hlineBreak, hpass₁.drop, hruns'⟩
  · cases h
  · split at h
    · next hend =>
      have hnil := hpass₁.ahead
      rw [List.isEmpty_iff.1 hend] at hnil
      exact absurd (List.append_eq_nil_iff.1 hnil.symm).2 hne
    · cases h
      exact ⟨gap, .whole, hpass, hruns⟩

/-! ## Imports -/

/-- An import is written up to its end, or it is dropped with the front of the gap after it. -/
theorem ImportDecl.render_writes {s : Settings} {i : ImportDecl} {c stop start : Cursor}
    {gap source : List Char} {ctx after : Context} (hlies : i.layout.Lies c stop)
    (htext : c.text = source) (hgap : stop.Passes gap start) (hruns : Trivia.Runs gap start.ahead)
    (hbegins : Begins start) (hne : start.ahead ≠ []) (hat : ctx.cursor = c)
    (hw : ctx.writer.Works) (h : i.render s ctx = .ok () after) :
    (∃ text, Writes source (i.render s) i.extent text ∧ after.cursor.Passes gap start ∧
        after.writer = ctx.writer.added text) ∨
      ∃ gap', Drops source (i.render s) i.extent ∧ Trimmed gap gap' ∧
        after.cursor.Passes gap' start ∧ Trivia.Runs gap' start.ahead ∧
        after.writer = ctx.writer := by
  obtain ⟨hoffset, hstop⟩ := hlies.offset_eq (x := i.extent) rfl
  rw [← hat] at htext hoffset
  rcases ImportDecl.render_lies hlies hat hw h with ⟨text, hcursor, hwriter⟩ | ⟨⟨b, hskip⟩, hwriter⟩
  · rw [← hcursor] at hstop hgap
    exact .inl ⟨text, ⟨ctx, after, htext, hoffset, h, hstop, hwriter⟩, hgap, hwriter⟩
  · obtain ⟨gap', htrimmed, hgap', hruns'⟩ := skipLineRest_trims hgap hruns hbegins hne hskip
    exact .inr ⟨gap', ⟨ctx, after, htext, hoffset, h, hwriter⟩, htrimmed, hgap', hruns', hwriter⟩

/-- The imports are written one after another, each after what is left of the gap before it. -/
theorem renderImports_writes {s : Settings} {imports : List ImportDecl} {gaps : List (List Char)}
    {c d : Cursor} {source before : List Char} {ctx after : Context}
    (hlie : ImportsLie imports gaps c d) (hsource : d.text = source) (hbegins : Begins d)
    (hne : d.ahead ≠ []) (hpass : ctx.cursor.Passes before c)
    (hruns : Trivia.Runs before c.ahead) (hw : ctx.writer.Works)
    (h : renderImports s d.offset imports ctx = .ok () after) :
    ∃ out left, ImportsText source s imports before gaps out left ∧
      after.writer = ctx.writer.added out ∧ after.cursor.Passes left d ∧
      Trivia.Runs left d.ahead := by
  induction hlie generalizing ctx before with
  | nil =>
    cases h
    exact ⟨[], before, .nil, (Writer.added_nil _).symm, hpass, hruns⟩
  | @cons gap imports gaps start d i c stop hi hgap hgapRuns hrest ih =>
    obtain ⟨_, hfirst⟩ := hi.passes
    obtain ⟨_, hpassRest⟩ := hrest.passes
    have hpassAll := hfirst.trans (hgap.trans hpassRest)
    have htext : c.text = source := hpassAll.text_eq.symm.trans hsource
    have hstart : Begins start := by
      rcases hrest.absent_or_eq with habsent | rfl
      · exact .inl habsent
      · exact hbegins
    have hstartNe : start.ahead ≠ [] := by
      rw [hpassRest.ahead]
      exact List.append_ne_nil_of_right_ne_nil _ hne
    have hlimit : c.offset ≤ d.offset := by
      rw [hpassAll.offset]
      exact Nat.le_add_right _ _
    -- What is left of the gap before the import is copied, and the import follows.
    obtain ⟨_, ctx₁, hcopy, h⟩ := bind_ok.1 h
    obtain rfl := copyTriviaUntil_passes hpass hruns hlimit (.inl hi.absent) hcopy
    obtain ⟨_, ctx₂, hrender, h⟩ := bind_ok.1 h
    have hw₁ : (ctx.moved c before).writer.Works := hw.added before
    rcases ImportDecl.render_writes hi htext hgap hgapRuns hstart hstartNe rfl hw₁ hrender with
      ⟨text, hwrites, hgap', hwriter⟩ | ⟨gap', hdrops, htrimmed, hgap', hruns', hwriter⟩
    · obtain ⟨out, left, hout, hafter, hleft⟩ :=
        ih hsource hbegins hne hgap' hgapRuns (hwriter ▸ hw₁.added text) h
      refine ⟨_, left, .kept hwrites hout, ?_, hleft⟩
      rw [hafter, hwriter, Writer.added_append, Writer.added_append]
      rfl
    · obtain ⟨out, left, hout, hafter, hleft⟩ :=
        ih hsource hbegins hne hgap' hruns' (hwriter ▸ hw₁) h
      refine ⟨_, left, .dropped hdrops htrimmed hout, ?_, hleft⟩
      rw [hafter, hwriter, Writer.added_append]
      rfl

/-! ## Bodies -/

variable {s : Settings} {type : TypeDecl} {begin stop : Cursor} {last : List Char}
  {source : List Char} {ctx after : Context}

/-- A type that is rendered is a class or an interface. -/
theorem TypeDecl.isPlain_of_ok (h : Step.runAll (type.script s) ctx = .ok () after) :
    type.header.form.isPlain = true := by
  cases hform : type.header.form.isPlain with
  | true => rfl
  | false =>
    rw [script, toMember, Member.script, hform, if_neg Bool.false_ne_true, Script.node] at h
    split at h
    · obtain ⟨_, _, _, ⟨⟩⟩ := runAll_cons_ok.1 h
    · cases h

/-- Where a class or an interface lies, there is text. -/
theorem TypeDecl.ahead_ne_nil (hform : type.header.form.isPlain = true)
    (hlies : type.toMember.Lies begin stop) : begin.ahead ≠ [] := by
  obtain ⟨first, hcovers, hfills⟩ := hlies
  obtain ⟨_, hlead, -⟩ := hcovers.lead
  rw [toMember, Member.Fills, if_pos hform] at hfills
  obtain ⟨body, inner, hheader, hmembers, _, close, _, hgap, -, ⟨-, hclose⟩, -⟩ := hfills
  obtain ⟨_, hpass⟩ := hheader.passes
  obtain ⟨_, hpass'⟩ := Member.LieAfter.passes hmembers
  have hahead : close.ahead ≠ [] := by
    rw [hclose.ahead]
    exact List.cons_ne_nil _ _
  rw [(hlead.trans (hpass.trans (hpass'.trans hgap))).ahead]
  exact List.append_ne_nil_of_right_ne_nil _ hahead

/-- The type is written, and the gap after it. -/
theorem renderType_writes (hlies : type.toMember.Lies begin stop) (hsource : begin.text = source)
    (hlast : stop.ahead = last) (hruns : Trivia.Runs last []) (htext : ctx.cursor.text = source)
    (hw : ctx.writer.Works) (h : renderType s type ctx = .ok () after) :
    type.header.form.isPlain = true ∧
      ∃ text, Writes source (runScript (type.script s)) type.header.extent text ∧
        after.writer = ctx.writer.added (text ++ last) := by
  obtain ⟨first, hcovers, hfills⟩ := hlies
  obtain ⟨lead, hlead, hcomments⟩ := hcovers.lead
  obtain ⟨cursor, ctx₂, _, hcursor, hoffset, hrun, hcopy⟩ := renderType_stages h
  obtain rfl : cursor = begin :=
    Cursor.eq_of_offset_eq (by rw [hcursor, htext, hsource]) (hoffset.trans hcovers.start.symm)
  obtain ⟨text, hwriter⟩ := Step.runAll_adds _ hrun
  have hw₁ : (ctx.moved cursor []).writer.Works := hw.added []
  have hends := Member.ends s type.toMember hcovers hfills (.refl _) .nil hlead hcomments hw₁
  unfold Ends at hends
  rw [show Step.runAll (type.toMember.script s) _ = _ from hrun] at hends
  obtain ⟨_, rfl⟩ := hends
  obtain ⟨hpass, hend⟩ := Cursor.passes_of_ahead_eq (hlast.trans (List.append_nil last).symm)
  obtain ⟨gap, cursor', hskip, -, rfl⟩ := copyTriviaUntil_ok hcopy
  rw [skipTrivia_eq hpass (hend ▸ hruns) (hend ▸ rfl)] at hskip
  cases hskip
  rw [Context.moved_nil] at hwriter
  refine ⟨TypeDecl.isPlain_of_ok hrun, text,
    ⟨_, ctx₂, hsource, hcovers.start, hrun, hcovers.stop, ?_⟩, ?_⟩
  · rw [hwriter, Context.moved_nil]
  · rw [Writer.added_append, ← hwriter, String.toList_ofList]
    rfl

/-- A name only moves the cursor and writes. -/
theorem Name.script_moves (n : Name) {ctx after : Context}
    (h : Step.runAll (n.script s) ctx = .ok () after) :
    ∃ cursor text, after = ctx.moved cursor text := by
  have simple (n : SimpleName) {ctx after : Context}
      (h : Step.runAll (n.script s) ctx = .ok () after) :
      ∃ cursor text, after = ctx.moved cursor text := by
    obtain ⟨cursor, -, rfl⟩ := swap_ok (runAll_singleton_ok.1 (runAll_node_ok h))
    exact ⟨cursor, _, rfl⟩
  induction n generalizing ctx after with
  | simple n => exact simple n h
  | qualified extent qualifier n binding ih =>
    obtain ⟨ctx₁, hfirst, hname⟩ := runAll_append_ok.1 (runAll_node_ok h)
    obtain ⟨ctx₂, hqualifier, hstop⟩ := runAll_append_ok.1 hfirst
    obtain ⟨_, _, rfl⟩ := ih hqualifier
    obtain ⟨_, hcopy, hstop⟩ := runAll_cons_ok.1 hstop
    obtain ⟨_, _, -, -, -, rfl⟩ := Step.run_copyTrivia_ok hcopy
    obtain ⟨_, hswap, hcopy⟩ := runAll_cons_ok.1 hstop
    obtain ⟨_, -, rfl⟩ := swap_ok hswap
    obtain ⟨_, _, -, -, -, rfl⟩ := Step.run_copyTrivia_ok (runAll_singleton_ok.1 hcopy)
    obtain ⟨cursor, _, rfl⟩ := simple n hname
    simp only [Context.moved_moved]
    exact ⟨cursor, _, rfl⟩

/-- A package opens a block: behind its word and a gap its name is rendered, a brace ends the line,
and what follows is indented. -/
theorem PackageDecl.render_ok {p : PackageDecl} (hopens : opensNamespace s.target = true)
    (hend : ctx.writer.lineEnd = "\n") (h : p.render s ctx = .ok () after) :
    ∃ start gap rest named cursor, Trivia.Runs gap rest ∧
      Step.runAll (p.name.script s) (ctx.moved start ("namespace".toList ++ gap)) = .ok () named ∧
      after = { named with
        cursor
        writer := (named.writer.added " \x7b\n".toList).indentBy s.indentWidth } := by
  obtain ⟨-, -, h⟩ := inNode_ok h
  rw [if_pos hopens] at h
  obtain ⟨_, _, hword, h⟩ := bind_ok.1 h
  obtain ⟨_, _, rfl⟩ := swap_ok hword
  obtain ⟨_, _, htrivia, h⟩ := bind_ok.1 h
  obtain ⟨gap, start, -, hruns, -, -, rfl⟩ := copyTrivia_ok htrivia
  rw [Context.moved_moved] at h
  obtain ⟨_, named, hname, h⟩ := bind_ok.1 h
  have hendNamed : named.writer.lineEnd = "\n" :=
    ((Step.runAll_leaves _).ok hname).writer.lineEnd.trans ((Writer.lineEnd_added _).trans hend)
  obtain ⟨_, _, htrivia', h⟩ := bind_ok.1 h
  obtain ⟨_, _, -, -, -, rfl⟩ := skipTriviaUntil_ok htrivia'
  obtain ⟨_, _, hclose, h⟩ := bind_ok.1 h
  obtain ⟨cursor, -, rfl⟩ := swap_ok hclose
  rw [Context.moved_moved, List.nil_append, String.toList_empty, Context.moved_nil] at h
  obtain ⟨_, _, hline, h⟩ := bind_ok.1 h
  cases h
  rw [writeLine_ok (by exact hendNamed) hline]
  exact ⟨start, gap, _, named, cursor, hruns, hname, rfl⟩

/-- The line of a package is written, and what follows is indented. -/
theorem PackageDecl.render_moves {p : PackageDecl} (hopens : opensNamespace s.target = true)
    (hend : ctx.writer.lineEnd = "\n") (h : p.render s ctx = .ok () after) :
    ∃ cursor line, after = { ctx with
      cursor
      writer := (ctx.writer.added (line ++ " \x7b\n".toList)).indentBy s.indentWidth } := by
  obtain ⟨_, gap, _, _, cursor, -, hname, rfl⟩ := PackageDecl.render_ok hopens hend h
  obtain ⟨_, name, rfl⟩ := p.name.script_moves hname
  refine ⟨cursor, "namespace".toList ++ gap ++ name, ?_⟩
  rw [Context.moved_moved, Writer.added_append]
  rfl

theorem PackageDecl.render_opens {p : PackageDecl} (hopens : opensNamespace s.target = true)
    (hend : ctx.writer.lineEnd = "\n") (h : p.render s ctx = .ok () after) :
    ∃ line, after.writer =
      (ctx.writer.added (line ++ " \x7b\n".toList)).indentBy s.indentWidth := by
  obtain ⟨_, line, rfl⟩ := p.render_moves hopens hend h
  exact ⟨line, rfl⟩

/-! ## The block of a package -/

/-- The last line of a block. -/
theorem closeBlock_ok
    (h : (do output Writer.ensureLineStart; output (Writer.writeLine "\x7d")) ctx = .ok () after)
    (hend : ctx.writer.lineEnd = "\n") :
    ∃ closing ∈ ["\x7d\n".toList, "\n\x7d\n".toList], after = ctx.moved ctx.cursor closing := by
  obtain ⟨_, mid, hstart, hline⟩ := bind_ok.1 h
  obtain rfl := ensureLineStart_ok hend hstart
  rw [writeLine_ok ((Writer.lineEnd_added _).trans hend) hline, Context.moved_moved]
  cases ctx.writer.atLineStart with
  | true => exact ⟨_, .head _, rfl⟩
  | false => exact ⟨_, .tail _ (.head _), rfl⟩

/-- In the block of a package the type and the gap after it are indented. -/
theorem renderBody_writes_block {p : PackageDecl} (hopens : opensNamespace s.target = true)
    (h : renderBody s (some p) type ctx = .ok () after) (hlies : type.toMember.Lies begin stop)
    (hsource : begin.text = source) (hlast : stop.ahead = last) (hruns : Trivia.Runs last [])
    (htext : ctx.cursor.text = source) (hw : ctx.writer.Works)
    (hindent : ctx.writer.indentation = 0) (hend : ctx.writer.lineEnd = "\n") :
    type.header.form.isPlain = true ∧ ∃ body, BodyText source s type last (some p) body ∧
      after.writer.current = ctx.writer.current ++ String.ofList body := by
  obtain ⟨_, typed, hpackage, htype, hclose⟩ := renderBody_stages hopens h
  -- The line of the package is written from its own place, and the cursor comes back.
  obtain ⟨start, opened, hstartText, hstart, hrun, hback⟩ := revisit_ok hpackage
  obtain ⟨line, hline⟩ := PackageDecl.render_opens hopens
    ((Writer.lineEnd_added _).trans hend) hrun
  obtain rfl := hback ((p.render_leaves s).ok hrun).text
  have hopening : p.Opens source s (line ++ " \x7b\n".toList) :=
    ⟨_, opened, hstartText.trans htext, hstart, hrun, hline⟩
  have hwriter₁ : (opened.moved ctx.cursor []).writer =
      (ctx.writer.added (line ++ " \x7b\n".toList)).indentBy s.indentWidth := by
    rw [Context.moved_nil, hline, Context.moved_nil]
  have htext₁ : (opened.moved ctx.cursor []).cursor.text = source := htext
  generalize opened.moved ctx.cursor [] = ctx₁ at hwriter₁ htext₁ htype
  -- The type, and the line that closes the block.
  have hw₁ : ctx₁.writer.Works := hwriter₁ ▸ hw.added (line ++ " \x7b\n".toList)
  obtain ⟨hform, text, hwrites, hwriter₂⟩ :=
    renderType_writes hlies hsource hlast hruns htext₁ hw₁ htype
  obtain ⟨closing, hclosing, hclosed⟩ := closeBlock_ok hclose <| by
    show typed.writer.lineEnd = "\n"
    rw [hwriter₂, hwriter₁]
    exact (Writer.lineEnd_added _).trans ((Writer.lineEnd_added _).trans hend)
  refine ⟨hform, _, .block hopens hopening hwrites hclosing, ?_⟩
  have hline : endsLine ctx.writer.atLineStart (line ++ " \x7b\n".toList) = true := by
    rw [endsLine_append]
    rfl
  rw [hclosed]
  dsimp only [Context.moved]
  rw [hwriter₂, hwriter₁, hindent, Writer.current_block hindent _ hline, indented_append]

/-- The type and the gap after it, in a block or as they are. -/
theorem renderBody_writes {package : Option PackageDecl}
    (h : renderBody s package type ctx = .ok () after) (hlies : type.toMember.Lies begin stop)
    (hsource : begin.text = source) (hlast : stop.ahead = last) (hruns : Trivia.Runs last [])
    (htext : ctx.cursor.text = source) (hw : ctx.writer.Works)
    (hindent : ctx.writer.indentation = 0) (hend : ctx.writer.lineEnd = "\n") :
    type.header.form.isPlain = true ∧ ∃ body, BodyText source s type last package body ∧
      after.writer.current = ctx.writer.current ++ String.ofList body := by
  obtain hbare | ⟨p, rfl, hopens⟩ := bare_or_opens s.target package
  · rw [renderBody_bare hbare] at h
    obtain ⟨hform, text, hwrites, hwriter⟩ :=
      renderType_writes hlies hsource hlast hruns htext hw h
    refine ⟨hform, _, .bare hbare hwrites, ?_⟩
    rw [hwriter, Writer.current_added_of_indentation_eq_zero hindent]
  · exact renderBody_writes_block hopens h hlies hsource hlast hruns htext hw hindent hend

/-- The body is held back: the output is as it was. -/
theorem captured_writes {package : Option PackageDecl} {body : String}
    (hlies : type.toMember.Lies begin stop) (hsource : begin.text = source)
    (hlast : stop.ahead = last) (hruns : Trivia.Runs last []) (htext : ctx.cursor.text = source)
    (hindent : ctx.writer.indentation = 0) (hend : ctx.writer.lineEnd = "\n")
    (h : captured (renderBody s package type) ctx = .ok body after) :
    type.header.form.isPlain = true ∧ BodyText source s type last package body.toList ∧
      after.writer = ctx.writer ∧ after.cursor.text = source := by
  obtain ⟨inside, hbody, rfl, rfl⟩ := captured_ok h
  have hw : ctx.writer.openCapture.Works := .inl (List.cons_ne_nil _ _)
  obtain ⟨hform, text, htextBody, hcurrent⟩ :=
    renderBody_writes hbody hlies hsource hlast hruns htext hw hindent hend
  have hextended := (renderBody_leaves s package type).ok hbody
  have hsame := ((renderBody_restores s package type).ok hbody).indentation
  refine ⟨hform, ?_, ?_, hextended.text.trans htext⟩
  · rw [Writer.closeCapture_fst hextended.writer, hcurrent]
    simpa [Writer.openCapture, Writer.current] using htextBody
  · exact (Writer.closeCapture_of_extended hextended.writer).trans (by rw [hsame]; rfl)

/-! ## The head of a file -/

section

variable {package : Option PackageDecl} {head : List (List Char)} {limit : Nat} {b : Bool}
  {input : String} {c : Cursor}

theorem PackageLies.passes {c d : Cursor} (h : PackageLies package head c d) :
    ∃ text, c.Passes text d := by
  cases h with
  | absent hpass => exact ⟨_, hpass⟩
  | present hpass _ hp hafter =>
    obtain ⟨_, hpackage⟩ := hp.passes
    exact ⟨_, hpass.trans (hpackage.trans hafter)⟩

/-- The first gap of a file is copied before the body is rendered. -/
theorem PackageLies.copies (h : PackageLies package head (.ofText input) c)
    (hlimit : c.offset ≤ limit) (hend : Trivia.next c.ahead = .absent ∨ c.offset = limit)
    (hat : ctx.cursor = .ofText input) (hcopy : copyTriviaUntil (some limit) ctx = .ok b after) :
    ∃ gap ∈ head.head?, ∃ d : Cursor, d.text = input.toList ∧ after = ctx.moved d gap := by
  cases h with
  | @absent gap _ d hgap hruns =>
    rw [← hat] at hgap
    refine ⟨gap, rfl, _, ?_, copyTriviaUntil_passes hgap hruns hlimit hend hcopy⟩
    rw [hgap.text_eq, hat]
    rfl
  | @present gap start p stop gap' _ _ hgap hruns hp hgap' _ =>
    rw [← hat] at hgap
    obtain ⟨_, hpass⟩ := hp.passes
    have hoffset := (hpass.trans hgap').offset
    refine ⟨gap, rfl, _, ?_,
      copyTriviaUntil_passes hgap hruns (by omega) (.inl hp.absent) hcopy⟩
    rw [hgap.text_eq, hat]
    rfl

/-- Without a package it is gone back to the end of the first gap. -/
theorem returnToHead_none {gap : List Char} (hpass : (Cursor.ofText input).Passes gap c)
    (hruns : Trivia.Runs gap c.ahead) (hlimit : c.offset ≤ limit)
    (hend : Trivia.next c.ahead = .absent ∨ c.offset = limit)
    (htext : ctx.cursor.text = input.toList) (h : returnToHead none limit ctx = .ok () after) :
    after = ctx.moved c [] := by
  obtain ⟨_, ctx₁, hjump, h⟩ := bind_ok.1 h
  obtain ⟨start, hstart, hoffset, rfl⟩ := jumpTo_ok hjump
  obtain rfl : start = .ofText input := Cursor.eq_of_offset_eq (hstart.trans htext) hoffset
  obtain ⟨_, ctx₂, hwalk, h⟩ := bind_ok.1 h
  cases h
  obtain ⟨cursor, hskip, rfl⟩ := walk_ok hwalk
  rw [Context.cursor_moved, skipTrivia_until_eq hpass hruns hlimit hend] at hskip
  cases hskip
  rw [Context.moved_moved, List.append_nil]

/-- After the body the head of a file is passed once more, and what has not been copied of its gaps
is. -/
theorem PackageLies.returns {gap : List Char} {ctx₁ : Context}
    (h : PackageLies package head (.ofText input) c) (hgap : gap ∈ head.head?)
    (hlimit : c.offset ≤ limit) (hend : Trivia.next c.ahead = .absent ∨ c.offset = limit)
    (hbegins : Begins c) (hne : c.ahead ≠ []) (htext : ctx.cursor.text = input.toList)
    (hreturn : returnToHead package limit ctx = .ok () ctx₁)
    (hcopy : copyTriviaUntil (some limit) ctx₁ = .ok b after) :
    ∃ kept, HeadText head (gap ++ kept) ∧ after = ctx.moved c kept := by
  cases h with
  | absent hpass hruns =>
    cases hgap
    obtain rfl := returnToHead_none hpass hruns hlimit hend htext hreturn
    refine ⟨[], by rw [List.append_nil]; exact .single, ?_⟩
    rw [copyTriviaUntil_passes (.refl c) .nil hlimit hend hcopy]
    simp only [Context.moved_moved, List.append_nil]
  | present hpass hruns hp hafter hruns' =>
    cases hgap
    obtain ⟨_, ctx₂, hjump, hreturn⟩ := bind_ok.1 hreturn
    obtain ⟨cursor, hcursor, hoffset, rfl⟩ := jumpTo_ok hjump
    obtain ⟨_, hpackage⟩ := hp.passes
    have hstop : cursor.text = _ :=
      hcursor.trans (htext.trans (hpass.trans hpackage).text_eq.symm)
    obtain rfl := Cursor.eq_of_offset_eq hstop (hoffset.trans (hp.offset_eq rfl).2.symm)
    obtain ⟨_, ctx₃, hwalk, hreturn⟩ := bind_ok.1 hreturn
    cases hreturn
    obtain ⟨cursor, hskip, rfl⟩ := walk_ok hwalk
    obtain ⟨kept, htrimmed, hkept, hruns'⟩ :=
      skipLineRest_trims hafter hruns' hbegins hne hskip
    refine ⟨kept, .package htrimmed, ?_⟩
    rw [copyTriviaUntil_passes hkept hruns' hlimit hend hcopy]
    simp only [Context.moved_moved, List.nil_append]

end

/-! ## Units -/

/-- Directives for the namespaces that are needed and have not been imported, and a line break if
imports follow. -/
theorem renderAddedImports_ok (hend : ctx.writer.lineEnd = "\n")
    (h : renderAddedImports s ctx = .ok () after) :
    ∃ text,
      DirectiveText s.target (unnoted id ctx.written (s.extraImports ++ ctx.required)) text ∧
      after = { ctx.moved ctx.cursor text with
        written := notedAfter id ctx.written (s.extraImports ++ ctx.required) } := by
  obtain ⟨_, _, hget, h⟩ := bind_ok.1 h
  cases hget
  obtain ⟨added, mid, hadd, h⟩ := bind_ok.1 h
  obtain ⟨text, htext, rfl⟩ := addImports_ok hend hadd
  obtain ⟨_, _, hget, h⟩ := bind_ok.1 h
  cases hget
  split at h
  · rw [writeLine_ok ((Writer.lineEnd_added text).trans hend) h]
    refine ⟨text ++ "\n".toList, ?_, ?_⟩
    · have hall := htext.append (.lineBreak .nil)
      rwa [List.append_nil] at hall
    · rw [← Context.moved_moved ctx ctx.cursor]
      rfl
  · cases h
    exact ⟨text, htext, rfl⟩

/-- What is written for the parts of a unit, and for the gaps between them. The directives that are
added stand before the gap after the imports. -/
inductive UnitText (s : Settings) (u : CompilationUnit) (type : TypeDecl) (source : List Char)
    (head gaps : List (List Char)) (last : List Char) (required : List String) :
    List Char → Prop where
  | mk : HeadText head leading → ImportsText source s u.imports [] gaps imported left →
      names.Sublist (s.extraImports ++ required) → DirectiveText s.target names added →
      BodyText source s type last u.package body →
      UnitText s u type source head gaps last required
        (leading ++ imported ++ added ++ left ++ body)

section

variable {u : CompilationUnit} {input : String} {head gaps : List (List Char)} {c : Cursor}

/-- The head of a file: its first gap, the body, which is held back, and the rest of the head, once
more from the package on. -/
theorem PackageLies.writes {ctx₁ ctx₂ ctx₃ : Context} {b b' : Bool} {body : String}
    (hhead : PackageLies u.package head (.ofText input) c)
    (himports : ImportsLie u.imports gaps c begin) (htype : type.toMember.Lies begin stop)
    (hlast : stop.ahead = last) (hruns : Trivia.Runs last []) (hat : ctx.cursor = .ofText input)
    (hindent : ctx.writer.indentation = 0) (hend : ctx.writer.lineEnd = "\n")
    (hfirst : copyTriviaUntil (some begin.offset) ctx = .ok b ctx₁)
    (hbody : captured (renderBody s u.package type) ctx₁ = .ok body ctx₂)
    (hreturn : returnToHead u.package begin.offset ctx₂ = .ok () ctx₃)
    (hrest : copyTriviaUntil (some begin.offset) ctx₃ = .ok b' after) :
    begin.ahead ≠ [] ∧ BodyText input.toList s type last u.package body.toList ∧
      ∃ leading, HeadText head leading ∧ after.cursor = c ∧
        after.writer = ctx.writer.added leading := by
  obtain ⟨_, hpassHead⟩ := hhead.passes
  obtain ⟨_, hpass⟩ := himports.passes
  have hsource : begin.text = input.toList := (hpassHead.trans hpass).text_eq
  have hlimit : c.offset ≤ begin.offset := by
    rw [hpass.offset]
    exact Nat.le_add_right _ _
  have hstop := himports.absent_or_eq.imp_right (congrArg Cursor.offset)
  obtain ⟨gap, hgap, d, hd, rfl⟩ := hhead.copies hlimit hstop hat hfirst
  obtain ⟨hform, hbodyText, hwriter, htext⟩ := captured_writes htype hsource hlast hruns hd
    ((Writer.indentation_added gap).trans hindent) ((Writer.lineEnd_added gap).trans hend) hbody
  have hne := TypeDecl.ahead_ne_nil hform htype
  have hcne : c.ahead ≠ [] := by
    rw [hpass.ahead]
    exact List.append_ne_nil_of_right_ne_nil _ hne
  have hbegins : Begins c := by
    rcases himports.absent_or_eq with habsent | rfl
    · exact .inl habsent
    · exact htype.begins
  obtain ⟨kept, hleading, rfl⟩ :=
    hhead.returns hgap hlimit hstop hbegins hcne htext hreturn hrest
  refine ⟨hne, hbodyText, _, hleading, rfl, ?_⟩
  rw [Writer.added_append]
  exact congrArg (Writer.added · kept) hwriter

/-- A unit that lies in the source is written with its gaps. -/
theorem CompilationUnit.renderWith_writes (hhead : PackageLies u.package head (.ofText input) c)
    (himports : ImportsLie u.imports gaps c begin) (htype : type.toMember.Lies begin stop)
    (hlast : stop.ahead = last) (hruns : Trivia.Runs last []) (hat : ctx.cursor = .ofText input)
    (hw : ctx.writer.Works) (hindent : ctx.writer.indentation = 0)
    (hend : ctx.writer.lineEnd = "\n") (h : u.renderWith s type ctx = .ok () after) :
    ∃ text, UnitText s u type input.toList head gaps last after.required text ∧
      after.writer = ctx.writer.added text := by
  obtain ⟨_, hpassHead⟩ := hhead.passes
  obtain ⟨_, hpass⟩ := himports.passes
  have hsource : begin.text = input.toList := (hpassHead.trans hpass).text_eq
  have hstart : begin.offset = type.header.extent.start := htype.offset_eq
  obtain ⟨⟨_, _, _, ctx₄, ctx₅, ctx₆, _, _, _, _, body, writer, hfirst, hbody, hreturn, hrest,
    himported, hadd, hcopy, hput, rfl⟩⟩ := u.renderWith_stages h
  rw [← hstart] at hfirst hreturn hrest himported hcopy
  obtain ⟨hne, hbodyText, leading, hleading, rfl, hwriter₄⟩ := hhead.writes himports htype hlast
    hruns hat hindent hend hfirst hbody hreturn hrest
  -- The imports and the directives that are added.
  have hw₄ : ctx₄.writer.Works := hwriter₄ ▸ hw.added leading
  obtain ⟨imported, left, hout, hwriter₅, hleft, hleftRuns⟩ :=
    renderImports_writes himports hsource htype.begins hne (.refl _) .nil hw₄ himported
  rw [hwriter₄, ← Writer.added_append] at hwriter₅
  have hend₅ : ctx₅.writer.lineEnd = "\n" := by rw [hwriter₅, Writer.lineEnd_added, hend]
  obtain ⟨added, haddText, hctx₆⟩ := renderAddedImports_ok hend₅ hadd
  have hcursor₆ : ctx₆.cursor = ctx₅.cursor := by rw [hctx₆, Context.cursor_moved]
  have hwriter₆ : ctx₆.writer = ctx.writer.added (leading ++ imported ++ added) := by
    rw [Writer.added_append, ← hwriter₅, hctx₆]
    rfl
  -- The gap after the imports, and the body.
  rw [← hcursor₆] at hleft
  obtain rfl := copyTriviaUntil_passes hleft hleftRuns (Nat.le_refl _) (.inr rfl) hcopy
  have hwriter₇ : (ctx₆.moved begin left).writer =
      ctx.writer.added (leading ++ imported ++ added ++ left) := by
    rw [Writer.added_append, ← hwriter₆]
    rfl
  rw [hwriter₇] at hput
  refine ⟨_, .mk hleading hout ((unnoted_sublist id _ _).trans ?_) haddText hbodyText, ?_⟩
  · exact .append_left ((renderAddedImports_leaves s).ok hadd).required.sublist _
  · rw [Writer.added_append]
    exact Writer.writeRaw_ok ((Writer.indentation_added _).trans hindent) hput

end

end Tree

end Lockstep
