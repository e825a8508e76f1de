import Lockstep.Proofs.ImportDirectives
import Lockstep.Proofs.Words

/-!
# Names that are reserved in C#

Wherever a name of the source is spelled by its script, each of its identifiers is escaped if it is
reserved in C#. At two places of the head an identifier is written as it stands in the source: the
alias of a single type, and the package of a generic type for which the settings have no namespace.

- `Name.bareWords`: the words of a name that is written as it stands.
- `CompilationUnit.lines`, `CompilationUnit.words`: the words of a file.
- `BodyText`: the text of a body, which may stand in the block of a package.
- `CompilationUnit.render_escaped`: the theorem about units.
-/

namespace Lockstep

open Config Output Render Source Target Text

namespace Tree

variable {s : Settings} {ctx mid after : Context}

/-! ## Identifiers in words -/

namespace Word

/-- The identifier of the source that the word is. -/
def identifier? : Word → Option String
  | .name identifier | .bare identifier => some identifier
  | .fixed .. | .setting .. | .literal .. => none

/-- If the word is an identifier, it is spelled as one of C#, which is no reserved word. -/
def IsEscaped (w : Word) : Prop :=
  ∀ identifier, w.identifier? = some identifier →
    w.spelling = Target.csharp.escaped identifier ∧ Target.csharp.isReserved w.spelling = false

/-- No reserved word begins like an escaped one. -/
theorem isReserved_escaped (identifier : String) :
    Target.csharp.isReserved (Target.csharp.escaped identifier) = false := by
  have hfirst : ∀ word ∈ Target.csharp.reservedWords, word.toList.head? ≠ some '@' := by
    decide +kernel
  unfold Target.escaped
  split
  · apply Bool.eq_false_iff.2
    intro hescaped
    rw [Target.isReserved, List.contains_iff_mem] at hescaped
    apply hfirst _ hescaped
    rw [String.toList_append]
    rfl
  · next hreserved => exact Bool.eq_false_iff.2 hreserved

theorem isEscaped_bare {identifier : String} :
    (Word.bare identifier).IsEscaped ↔ Target.csharp.isReserved identifier = false := by
  constructor
  · intro h
    exact (h identifier rfl).2
  · intro hfree other hother
    cases hother
    refine ⟨?_, hfree⟩
    rw [Target.escaped, hfree]
    rfl

theorem FitsBody.isEscaped {w : Word} (h : w.FitsBody s) : w.IsEscaped := by
  rintro identifier hidentifier
  cases w with
  | name => cases hidentifier; exact ⟨rfl, isReserved_escaped identifier⟩
  | bare => exact h.elim
  | fixed | setting | literal => cases hidentifier

end Word

theorem Name.words_spelling (n : Name) : n.words.map Word.spelling = n.tokens := by
  induction n with
  | simple n => rfl
  | qualified extent qualifier n binding ih =>
    rw [Name.words, List.map_append, ih]
    rfl

/-- The words of a name that is written as it stands in the source. -/
def Name.bareWords : Name → List Word
  | .simple n => [.bare n.identifier]
  | .qualified _ qualifier n _ => qualifier.bareWords ++ [.fixed ".", .bare n.identifier]

theorem Name.bareWords_spelled (n : Name) :
    Spelled (n.bareWords.map Word.spelling) n.dotted.toList := by
  induction n with
  | simple n => exact .single n.identifier
  | qualified extent qualifier n binding ih =>
    have hlast : Spelled [".", n.identifier] (".".toList ++ n.identifier.toList) :=
      .token "." (.single n.identifier)
    rw [Name.bareWords, List.map_append, Name.dotted, String.toList_append, String.toList_append,
      List.append_assoc]
    exact ih.append hlast

/-! ## The words of a head -/

/-- A directive: what is noted for it, and its words. -/
structure Line where
  key : String
  words : List Word

/-- The words for the package of a generic type. -/
def genericWords (s : Settings) (package : Name) : List Word :=
  match s.genericNamespaces.get? package.dotted with
  | some name => [.setting name]
  | none => package.bareWords

/-- The directive that an import becomes, unless it is dropped. -/
def ImportDecl.line? (s : Settings) (i : ImportDecl) : Option Line :=
  if s.isMarked i.name.dotted then none
  else
    match i.name with
    | .simple _ => none
    | .qualified _ qualifier _ _ =>
      if i.isOnDemand then
        some ⟨i.name.dotted, .fixed "using" :: (i.name.words ++ [.fixed ";"])⟩
      else if i.isGeneric then
        some ⟨s.genericNamespace qualifier.dotted,
          .fixed "using" :: (genericWords s qualifier ++ [.fixed ";"])⟩
      else
        some ⟨i.name.dotted, .fixed "using" ::
          (.bare i.name.last.identifier :: .fixed "=" :: i.name.words ++ [.fixed ";"])⟩

/-- The directive for a namespace that the settings name. -/
def Line.added (name : String) : Line := ⟨name, [.fixed "using", .setting name, .fixed ";"]⟩

/-- The directives of a file whose body needs these namespaces, the first one of each name. -/
def CompilationUnit.lines (s : Settings) (u : CompilationUnit) (needed : List String) : List Line :=
  unnoted Line.key [] (u.imports.filterMap (·.line? s) ++ (s.extraImports ++ needed).map .added)

/-- The import puts the identifier as it stands in the source: as an alias, or in the package of a
generic type that the settings leave as it is. -/
def ImportDecl.Bares (s : Settings) (i : ImportDecl) (identifier : String) : Prop :=
  i.isOnDemand = false ∧
    match i.name with
    | .simple _ => False
    | .qualified _ package n _ =>
      if i.isGeneric then
        s.genericNamespaces.get? package.dotted = none ∧ .bare identifier ∈ package.bareWords
      else identifier = n.identifier

theorem Name.words_fit (n : Name) : ∀ w ∈ n.words, w.FitsBody s := by
  induction n with
  | simple n => exact List.forall_mem_singleton.2 trivial
  | qualified extent qualifier n binding ih =>
    rw [Name.words, List.forall_mem_append, List.forall_mem_cons]
    exact ⟨ih, trivial, List.forall_mem_singleton.2 trivial⟩

/-- Of a name that is written as it stands, the words are full stops and its identifiers. -/
theorem Name.bareWords_fit {n : Name} {w : Word} (hw : w ∈ n.bareWords) :
    w.FitsBody s ∨ ∃ identifier, w = .bare identifier := by
  induction n with
  | simple n => exact .inr ⟨_, List.mem_singleton.1 hw⟩
  | qualified extent qualifier n binding ih =>
    rcases List.mem_append.1 hw with hqualifier | hlast
    · exact ih hqualifier
    · rcases List.mem_cons.1 hlast with rfl | hlast
      · exact .inl trivial
      · exact .inr ⟨_, List.mem_singleton.1 hlast⟩

/-- What is neither escaped nor of the settings in a directive, the import puts there. -/
theorem ImportDecl.line_fits {i : ImportDecl} {l : Line} (hline : i.line? s = some l) :
    ∀ w ∈ l.words, w.FitsBody s ∨ ∃ identifier, w = .bare identifier ∧ i.Bares s identifier := by
  have hends {words : List Word} (hwords : ∀ w ∈ words,
      w.FitsBody s ∨ ∃ identifier, w = .bare identifier ∧ i.Bares s identifier) :
      ∀ w ∈ .fixed "using" :: (words ++ [.fixed ";"]),
        w.FitsBody s ∨ ∃ identifier, w = .bare identifier ∧ i.Bares s identifier := by
    rw [List.forall_mem_cons, List.forall_mem_append]
    exact ⟨.inl trivial, hwords, List.forall_mem_singleton.2 (.inl trivial)⟩
  unfold ImportDecl.line? at hline
  split at hline
  · cases hline
  · split at hline
    · cases hline
    · next extent package n binding hname =>
      split at hline
      · cases hline
        exact hends fun w hw => .inl (i.name.words_fit w hw)
      · next hone =>
        have hone := Bool.eq_false_iff.2 hone
        split at hline
        · next hgeneric =>
          cases hline
          apply hends
          intro w hw
          unfold genericWords at hw
          split at hw
          · next name hget =>
            rw [List.mem_singleton.1 hw]
            exact .inl (.inr (.inr (.inl ⟨_, hget⟩)))
          · next hget =>
            refine (Name.bareWords_fit hw).imp_right ?_
            rintro ⟨identifier, rfl⟩
            refine ⟨identifier, rfl, hone, ?_⟩
            rw [hname]
            dsimp only
            rw [if_pos hgeneric]
            exact ⟨hget, hw⟩
        · next hplain =>
          cases hline
          have hbares : i.Bares s i.name.last.identifier := by
            refine ⟨hone, ?_⟩
            rw [hname]
            dsimp only
            rw [if_neg hplain]
            rfl
          refine hends (List.forall_mem_cons.2 ⟨.inr ⟨_, rfl, hbares⟩, ?_⟩)
          exact List.forall_mem_cons.2 ⟨.inl trivial, fun w hw => .inl (i.name.words_fit w hw)⟩

/-! ## What is written for imports -/

theorem Spelled.split {token : String} {tokens parts : List String} {text : List Char}
    (h : Spelled (token :: tokens) text) (hparts : Spelled parts token.toList) :
    Spelled (parts ++ tokens) text := by
  generalize hall : token :: tokens = all at h
  induction h with
  | nil => cases hall
  | trivia hgap _ ih => exact .trivia hgap (ih hall)
  | token other hrest _ =>
    cases hall
    exact hparts.append hrest

theorem genericWords_spelled (s : Settings) (package : Name) :
    Spelled ((genericWords s package).map Word.spelling)
      (s.genericNamespace package.dotted).toList := by
  unfold genericWords Settings.genericNamespace
  cases s.genericNamespaces.get? package.dotted with
  | none => exact package.bareWords_spelled
  | some name => exact .single name

/-- The directives have been written, but for those whose names had been noted. -/
def Lined (ctx : Context) (lines : List Line) (after : Context) : Prop :=
  ∃ cursor text, Spelled (((unnoted Line.key ctx.written lines).flatMap Line.words).map
      Word.spelling) text ∧
    after = { ctx.moved cursor text with written := notedAfter Line.key ctx.written lines }

namespace Lined

variable {lines lines' : List Line}

theorem moved {cursor : Cursor} {gap : List Char} (h : Spelled [] gap) :
    Lined ctx [] (ctx.moved cursor gap) := ⟨cursor, gap, h, rfl⟩

theorem trans (h : Lined ctx lines mid) (h' : Lined mid lines' after) :
    Lined ctx (lines ++ lines') after := by
  obtain ⟨c, text, htext, rfl⟩ := h
  obtain ⟨c', text', htext', rfl⟩ := h'
  refine ⟨c', text ++ text', ?_, ?_⟩
  · rw [unnoted_append, List.flatMap_append, List.map_append]
    exact htext.append htext'
  · rw [notedAfter_append, ← Context.moved_moved ctx c]
    rfl

theorem ofNew {l : Line} {tokens : List String} {words : List Word}
    (h : ImportDecl.NewCourse l.key tokens ctx after)
    (hwords : ∀ text, Spelled (tokens ++ [";"]) text → Spelled (words.map Word.spelling) text)
    (hl : l.words = .fixed "using" :: words) : Lined ctx [l] after := by
  unfold Lined
  rw [unnoted]
  cases h with
  | @known cursor hwritten hafter =>
    rw [if_pos hwritten]
    exact ⟨cursor, [], .nil, hafter⟩
  | @new c cursor gap _ text hwritten _ _ hruns htext hafter =>
    rw [if_neg (Bool.eq_false_iff.1 hwritten)]
    have hline : Spelled (l.words.map Word.spelling) ("using".toList ++ (gap ++ text)) := by
      rw [hl]
      exact .token "using" (.trivia hruns (hwords text htext))
    refine ⟨cursor, _, ?_, hafter⟩
    rwa [unnoted, List.append_nil, List.flatMap_singleton]

end Lined

/-- An import is dropped, or it becomes its directive. -/
theorem ImportDecl.render_lined (ht : s.target = .csharp) {i : ImportDecl}
    (h : i.render s ctx = .ok () after) : Lined ctx (i.line? s).toList after := by
  obtain ⟨-, hcourse⟩ := ImportDecl.render_course ht h
  unfold ImportDecl.line?
  cases hcourse with
  | dropped hmarked hafter =>
    rw [if_pos hmarked, hafter]
    exact .moved .nil
  | all hmarked hname hall hnew =>
    rw [if_neg (Bool.eq_false_iff.1 hmarked)]
    simp only [hname, if_pos hall]
    rw [← hname]
    refine Lined.ofNew (l := ⟨_, _⟩) hnew (fun text htext => ?_) rfl
    rwa [List.map_append, Name.words_spelling]
  | @generic _ package _ _ hmarked hname hone hgeneric hnew =>
    rw [if_neg (Bool.eq_false_iff.1 hmarked)]
    simp only [hname, hone, Bool.false_eq_true, if_false, if_pos hgeneric]
    refine Lined.ofNew (l := ⟨_, _⟩) hnew (fun text htext => ?_) rfl
    rw [List.map_append]
    exact htext.split (genericWords_spelled s package)
  | single hmarked hname hone hplain hnew =>
    rw [if_neg (Bool.eq_false_iff.1 hmarked)]
    simp only [hname, hone, hplain, Bool.false_eq_true, if_false]
    rw [← hname]
    refine Lined.ofNew (l := ⟨_, _⟩) hnew (fun text htext => ?_) rfl
    rw [List.map_append, List.map_cons, List.map_cons, Name.words_spelling]
    exact htext

/-- The imports become directives in their order. -/
theorem renderImports_lined (ht : s.target = .csharp) {limit : Nat} {imports : List ImportDecl}
    (h : renderImports s limit imports ctx = .ok () after) :
    Lined ctx (imports.filterMap (·.line? s)) after := by
  induction imports generalizing ctx with
  | nil =>
    cases h
    have hnil : Lined after [] (after.moved after.cursor []) := .moved .nil
    rwa [Context.moved_self] at hnil
  | cons i rest ih =>
    obtain ⟨_, _, hcopy, h⟩ := bind_ok.1 h
    obtain ⟨_, gap, hgap, rfl⟩ := copyTriviaUntil_spelled hcopy
    obtain ⟨_, mid, hrender, h⟩ := bind_ok.1 h
    have hall := ((Lined.moved hgap).trans (ImportDecl.render_lined ht hrender)).trans (ih h)
    rw [List.nil_append] at hall
    rw [List.filterMap_cons]
    cases hline : i.line? s with
    | none => rwa [hline] at hall
    | some l => rwa [hline] at hall

theorem Line.added_spelled {names : List String} {text : List Char}
    (h : DirectiveText .csharp names text) :
    Spelled (((names.map Line.added).flatMap Line.words).map Word.spelling) text := by
  induction h with
  | nil => exact .nil
  | lineBreak _ ih =>
    have hbreak : Trivia.Runs "\n".toList [] := .single rfl
    exact .trivia hbreak ih
  | @directive names text name _ ih =>
    have hspace : Trivia.Runs " ".toList [] := .single rfl
    have htokens : Spelled ["using", name, ";"]
        ("using".toList ++ (" ".toList ++ (name.toList ++ ";".toList))) :=
      .token "using" (.trivia hspace (.token name (.single ";")))
    rw [importDirective_csharp]
    exact htokens.append ih

theorem renderAddedImports_lined (ht : s.target = .csharp) (hend : ctx.writer.lineEnd = "\n")
    (h : renderAddedImports s ctx = .ok () after) :
    Lined ctx ((s.extraImports ++ ctx.required).map .added) after := by
  obtain ⟨text, htext, rfl⟩ := renderAddedImports_ok hend h
  rw [ht] at htext
  have hnoted : notedAfter Line.key ctx.written ((s.extraImports ++ ctx.required).map .added) =
      notedAfter id ctx.written (s.extraImports ++ ctx.required) := List.foldl_map
  refine ⟨ctx.cursor, text, ?_, by rw [hnoted]⟩
  rw [unnoted_map]
  exact Line.added_spelled htext

/-! ## Units -/

/-- The words of the line that opens the block of a package. -/
def packageWords : Option PackageDecl → List Word
  | none => []
  | some p => .fixed "namespace" :: p.name.words

/-- The words of a file that declares the type and whose body needs these namespaces. -/
def CompilationUnit.words (s : Settings) (u : CompilationUnit) (type : TypeDecl)
    (needed : List String) : List Word :=
  (u.lines s needed).flatMap Line.words ++ (packageWords u.package ++ type.toMember.words s)

/-- A text of a body of these words, which stands in the block of its package. -/
inductive BodySpelled (s : Settings) (ws : List Word) : Option PackageDecl → List Char → Prop where
  | bare : Spelled (ws.map Word.spelling) text → BodySpelled s ws none text
  | block : Spelled ((packageWords (some p)).map Word.spelling) line →
      Spelled (ws.map Word.spelling) text → closing ∈ ["\x7d\n".toList, "\n\x7d\n".toList] →
      BodySpelled s ws (some p)
        (line ++ " \x7b\n".toList ++ indented s.indentWidth true text ++ closing)

/-- A text of a file: the directives, and the body behind them. -/
inductive CompilationUnit.Spelled (s : Settings) (u : CompilationUnit) (type : TypeDecl)
    (needed : List String) : List Char → Prop where
  | mk : Tree.Spelled (((u.lines s needed).flatMap Line.words).map Word.spelling) head →
      BodySpelled s (type.toMember.words s) u.package body → u.Spelled s type needed (head ++ body)

/-- The body holds the words of the type, and the namespaces that it needs are of the settings. -/
theorem renderBody_spelled (ht : s.target = .csharp) {package : Option PackageDecl}
    {type : TypeDecl} (hindent : ctx.writer.indentation = 0) (hend : ctx.writer.lineEnd = "\n")
    (h : renderBody s package type ctx = .ok () after) :
    (∃ text, BodySpelled s (type.toMember.words s) package text ∧
      after.writer.current = ctx.writer.current ++ String.ofList text) ∧
    (∀ w ∈ type.toMember.words s, w.FitsBody s) ∧
    ∀ name ∈ after.required, name ∈ ctx.required ∨ s.Names name := by
  cases renderBody_ok hend h with
  | @bare place cursor mid gap hbare hrun hgap hafter =>
    have hmid := type.toMember.script_yields ht _ mid rfl hrun
    obtain ⟨text, htext, hwriter⟩ := hmid.text
    have hall := htext.append hgap
    rw [List.append_nil] at hall
    refine ⟨⟨text ++ gap, ?_, ?_⟩, hmid.fits, ?_⟩
    · cases package with
      | none => exact .bare hall
      | some p =>
        have hopens := hbare rfl
        rw [ht] at hopens
        cases hopens
    · have hwritten : after.writer = ctx.writer.added (text ++ gap) := by
        rw [hafter, Writer.added_append]
        simp only [Context.moved, hwriter, Writer.added_nil]
      rw [hwritten, Writer.current_added_of_indentation_eq_zero hindent]
    · rw [hafter]
      exact hmid.required
  | @block p place mid line gap closing hpackage _ hline hrun hgap hclosing hwriter hrequired _ =>
    have hmid := type.toMember.script_yields ht _ mid rfl hrun
    obtain ⟨text, htext, hwritten⟩ := hmid.text
    have hall := htext.append hgap
    rw [List.append_nil] at hall
    have hopening : Spelled ((packageWords (some p)).map Word.spelling) line := by
      rw [packageWords, List.map_cons, p.name.words_spelling]
      exact hline
    have hbreak : endsLine ctx.writer.atLineStart (line ++ " \x7b\n".toList) = true := by
      rw [endsLine_append]
      rfl
    subst hpackage
    refine ⟨⟨_, .block hopening hall hclosing, ?_⟩, hmid.fits, ?_⟩
    · rw [hwriter, hwritten, ← Writer.added_append, hindent]
      exact Writer.current_block hindent s.indentWidth hbreak (text ++ gap) closing
    · rw [hrequired]
      exact hmid.required

/-- Behind the trivia at its beginning, a file holds its words. -/
theorem CompilationUnit.renderWith_spelled (ht : s.target = .csharp) {u : CompilationUnit}
    {type : TypeDecl} (hindent : ctx.writer.indentation = 0) (hend : ctx.writer.lineEnd = "\n")
    (hwritten : ctx.written = []) (hrequired : ctx.required = [])
    (h : u.renderWith s type ctx = .ok () after) :
    ∃ needed text, u.Spelled s type needed text ∧ after.writer = ctx.writer.added text ∧
      (∀ w ∈ type.toMember.words s, w.FitsBody s) ∧ ∀ name ∈ needed, s.Names name := by
  obtain ⟨c⟩ := u.renderWith_ok hindent hend h
  obtain ⟨lead, hstart⟩ := c.start_writer
  have hindentStart : c.start.writer.indentation = 0 := by
    rw [hstart]
    exact (Writer.indentation_added lead).trans hindent
  have hendStart : c.start.writer.lineEnd = "\n" := by
    rw [hstart]
    exact (Writer.lineEnd_added lead).trans hend
  obtain ⟨⟨body, hbody, hcurrent⟩, hfits, hneeded⟩ :=
    renderBody_spelled ht hindentStart hendStart c.body
  have hextended := ((renderBody_leaves s u.package type).ok c.body).writer
  rw [hstart] at hextended hcurrent
  have hheld : c.inside.writer.closeCapture.1.toList = body := by
    rw [Writer.closeCapture_fst hextended, hcurrent]
    exact (congrArg String.toList String.empty_append).trans String.toList_ofList
  have hlined := renderImports_lined ht c.imports
  have hendImported : c.imported.writer.lineEnd = "\n" := by
    rw [((renderImports_leaves s _ _).ok c.imports).writer.lineEnd, c.head_writer,
      Writer.lineEnd_added, hend]
  have himported : c.imported.required = c.inside.required := by
    obtain ⟨_, _, -, himported⟩ := hlined
    rw [himported, ← c.head_required]
    rfl
  obtain ⟨_, head, hhead, hlast⟩ := hlined.trans (renderAddedImports_lined ht hendImported c.added)
  rw [c.head_written, hwritten, himported] at hhead
  have hall := (c.lead_trivia.append hhead).append c.gap_trivia
  rw [List.append_nil, List.nil_append] at hall
  refine ⟨c.inside.required, _, .mk hall hbody, ?_, hfits, ?_⟩
  · rw [c.writer (by rw [hlast]; rfl), hheld]
    simp only [List.append_assoc]
  · intro name hname
    rcases hneeded name hname with hmem | hnames
    · rw [c.start_required, hrequired] at hmem
      cases hmem
    · exact hnames

/-- A word of a file is escaped, or an import puts it as it stands. -/
theorem CompilationUnit.words_fit {u : CompilationUnit} {type : TypeDecl} {needed : List String}
    (hbody : ∀ w ∈ type.toMember.words s, w.FitsBody s) (hneeded : ∀ name ∈ needed, s.Names name) :
    ∀ w ∈ u.words s type needed, w.FitsBody s ∨
      ∃ identifier, w = .bare identifier ∧ ∃ i ∈ u.imports, i.Bares s identifier := by
  have hadded : ∀ name ∈ s.extraImports ++ needed, s.Names name := by
    rw [List.forall_mem_append]
    exact ⟨fun name hname => .inl hname, hneeded⟩
  have hpackage : ∀ w ∈ packageWords u.package, w.FitsBody s := by
    cases u.package with
    | none => exact nofun
    | some p => exact List.forall_mem_cons.2 ⟨trivial, p.name.words_fit⟩
  intro w hw
  rcases List.mem_append.1 hw with hhead | hrest
  · obtain ⟨l, hl, hwl⟩ := List.mem_flatMap.1 hhead
    rcases List.mem_append.1 ((unnoted_sublist ..).subset hl) with himported | hextra
    · obtain ⟨i, hi, hline⟩ := List.mem_filterMap.1 himported
      refine (ImportDecl.line_fits hline w hwl).imp_right ?_
      rintro ⟨identifier, hidentifier, hbares⟩
      exact ⟨identifier, hidentifier, i, hi, hbares⟩
    · obtain ⟨name, hname, rfl⟩ := List.mem_map.1 hextra
      have hline : ∀ w ∈ (Line.added name).words, w.FitsBody s := by
        simp only [Line.added, List.forall_mem_cons]
        exact ⟨trivial, hadded name hname, trivial, List.forall_mem_nil _⟩
      exact .inl (hline w hwl)
  · rcases List.mem_append.1 hrest with hname | htype
    · exact .inl (hpackage w hname)
    · exact .inl (hbody w htype)

/-- **Names that are reserved are escaped, but for those that imports put as they stand.** When a
unit is rendered to C#, the output consists of its words, with white space and comments around
them. Each word that is an identifier of the source is spelled as one of C#, unless it is the alias
of a single type or belongs to the package of a generic type that the settings leave as it is. So
nothing reserved is left over if and only if these are not reserved. -/
theorem CompilationUnit.render_escaped (ht : s.target = .csharp) {u : CompilationUnit}
    {input : String} (h : u.render s (.start input true) = .ok () after) :
    ∃ type needed text, u.types = [type] ∧
      renderUnit s input true u = ⟨none, String.ofList text⟩ ∧ u.Spelled s type needed text ∧
      (∀ w ∈ u.words s type needed, w.FitsBody s ∧ w.IsEscaped ∨
        ∃ identifier, w = .bare identifier ∧ ∃ i ∈ u.imports, i.Bares s identifier) ∧
      ((∀ w ∈ u.words s type needed, w.IsEscaped) ↔
        ∀ identifier, .bare identifier ∈ u.words s type needed →
          Target.csharp.isReserved identifier = false) := by
  obtain ⟨type, htypes, hwith⟩ := u.render_ok h
  obtain ⟨needed, text, htext, hwriter, hbody, hneeded⟩ :=
    u.renderWith_spelled ht rfl rfl rfl rfl hwith
  have hreceived := Writer.current_added_of_indentation_eq_zero (w := .new true "\n") rfl text
  have houtput : renderUnit s input true u = ⟨none, String.ofList text⟩ := by
    simp only [renderUnit, runFrom, Node.render, h, hwriter]
    exact congrArg (Outcome.mk none) (hreceived.trans String.empty_append)
  have hfits := u.words_fit hbody hneeded
  refine ⟨type, needed, text, htypes, houtput, htext, ?_, ?_, ?_⟩
  · intro w hw
    exact (hfits w hw).imp_left fun hfit => ⟨hfit, hfit.isEscaped⟩
  · intro hescaped identifier hbare
    exact Word.isEscaped_bare.1 (hescaped _ hbare)
  · intro hfree w hw
    rcases hfits w hw with hfit | ⟨identifier, rfl, -⟩
    · exact hfit.isEscaped
    · exact Word.isEscaped_bare.2 (hfree identifier hw)

/-- A class of a reserved name in a package of a reserved name, with an import of another. -/
theorem CompilationUnit.render_escaped_class :
    let s : Settings := .ofTarget .csharp
    let u : CompilationUnit :=
      ⟨⟨0, 48⟩,
        some ⟨⟨0, 16⟩, .qualified ⟨8, 15⟩ (.simple ⟨⟨8, 9⟩, "a"⟩) ⟨⟨10, 15⟩, "event"⟩ none⟩,
        [⟨⟨17, 33⟩, .qualified ⟨24, 30⟩ (.simple ⟨⟨24, 25⟩, "b"⟩) ⟨⟨26, 30⟩, "base"⟩ none, false,
          true, none⟩],
        [⟨⟨⟨34, 48⟩, .class, [], ⟨⟨40, 44⟩, "lock"⟩, [], none, []⟩, []⟩]⟩
    let input := "package a.event;\nimport b.base.*;\nclass lock \x7b \x7d"
    let output := "using b.@base;\nnamespace a.@event \x7b\n    class @lock \x7b \x7d\n\x7d\n"
    s.target = .csharp ∧ ∃ after, u.render s (.start input true) = .ok () after ∧
      ∃ type needed, u.types = [type] ∧ u.Spelled s type needed output.toList ∧
        ∀ w ∈ u.words s type needed, w.IsEscaped := by
  intro s u input output
  have houtput : renderUnit s input true u = ⟨none, output⟩ := by decide +kernel
  obtain ⟨after, hrun, -⟩ := runFrom_ok houtput
  obtain ⟨type, needed, text, htypes, hrendered, htext, hwords, -⟩ :=
    CompilationUnit.render_escaped (s := s) rfl hrun
  have htextOutput : output.toList = text := by
    have hreceived := congrArg Outcome.received (houtput.symm.trans hrendered)
    rw [show output = String.ofList text from hreceived, String.toList_ofList]
  refine ⟨rfl, after, hrun, type, needed, htypes, htextOutput ▸ htext, fun w hw => ?_⟩
  rcases hwords w hw with ⟨-, hescaped⟩ | ⟨_, -, i, hi, hbares⟩
  · exact hescaped
  · rw [List.mem_singleton.1 hi] at hbares
    cases hbares.1

/-- An alias and the package of a generic type are left as they stand, though they are reserved. -/
theorem CompilationUnit.render_leaves_reserved :
    let s : Settings := .ofTarget .csharp
    let type (pos : UInt32) : TypeDecl :=
      ⟨⟨⟨pos, pos + 11⟩, .class, [], ⟨⟨pos + 6, pos + 7⟩, "A"⟩, [], none, []⟩, []⟩
    let single : CompilationUnit :=
      ⟨⟨0, 26⟩, none,
        [⟨⟨0, 14⟩, .qualified ⟨7, 13⟩ (.simple ⟨⟨7, 8⟩, "a"⟩) ⟨⟨9, 13⟩, "lock"⟩ none, false, false,
          none⟩], [type 15]⟩
    let generic : CompilationUnit :=
      ⟨⟨0, 32⟩, none,
        [⟨⟨0, 20⟩, .qualified ⟨7, 19⟩
          (.qualified ⟨7, 14⟩ (.simple ⟨⟨7, 8⟩, "a"⟩) ⟨⟨9, 14⟩, "event"⟩ none) ⟨⟨15, 19⟩, "List"⟩
            none, false, false, some ⟨"a.event.List", true⟩⟩], [type 21]⟩
    s.genericNamespaces = ∅ ∧
    renderUnit s "import a.lock;\nclass A \x7b \x7d" true single =
      ⟨none, "using lock = a.@lock;\nclass A \x7b \x7d"⟩ ∧
    .bare "lock" ∈ single.words s (type 15) [] ∧ ¬ (Word.bare "lock").IsEscaped ∧
    renderUnit s "import a.event.List;\nclass A \x7b \x7d" true generic =
      ⟨none, "using a.event;\nclass A \x7b \x7d"⟩ ∧
    .bare "event" ∈ generic.words s (type 21) [] ∧ ¬ (Word.bare "event").IsEscaped := by
  have hreserved {identifier : String} (h : Target.csharp.isReserved identifier = true) :
      ¬ (Word.bare identifier).IsEscaped := by
    rw [Word.isEscaped_bare, h]
    nofun
  refine ⟨rfl, by decide +kernel, by decide +kernel, hreserved (by decide), by decide +kernel,
    by decide +kernel, hreserved (by decide)⟩

end Tree

end Lockstep
