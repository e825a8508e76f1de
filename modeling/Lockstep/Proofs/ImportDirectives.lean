import Lockstep.Proofs.FileCourse

/-!
# The directives of a C# file

At the head of a C# file the imports of the source, those of the settings and those that the body
needs become directives. One list tells what has been imported, by names only, whatever kind of
directive has been written for them. So the directives that are written are the first ones of each
name.

- `Directive`, `Directive.Text`: what imports something, and how it is written.
- `CompilationUnit.directives`: the directives that are asked for.
- `renderImports_directives`, `CompilationUnit.renderWith_directives`: those that are written.
- `CompilationUnit.render_directives`: the theorem about units.
-/

namespace Lockstep

open Config Output Render Source Target Text

namespace Tree

/-! ## Directives -/

/-- What imports something in C#. -/
inductive Directive where
  /-- `using N;` for all of the namespace `N`. -/
  | all (name : String)
  /-- `using X = a.b.X;` for the type `a.b.X`. -/
  | single (name : String)
  deriving DecidableEq

/-- What is noted when the directive is written. -/
def Directive.key : Directive → String
  | .all name | .single name => name

/-- The directive for an import, unless it is dropped. -/
def ImportDecl.directive? (s : Settings) (i : ImportDecl) : Option Directive :=
  if s.isMarked i.name.dotted then none
  else
    match i.name with
    | .simple _ => none
    | .qualified _ qualifier _ _ =>
      if i.isOnDemand then some (.all i.name.dotted)
      else if i.isGeneric then some (.all (s.genericNamespace qualifier.dotted))
      else some (.single i.name.dotted)

/-- The directives that are asked for: by the imports, by the settings, and by the body, which needs
these namespaces. -/
def CompilationUnit.directives (s : Settings) (u : CompilationUnit) (needed : List String) :
    List Directive :=
  u.imports.filterMap (·.directive? s) ++ (s.extraImports ++ needed).map .all

/-! ## Texts of directives -/

/-- Where the import may be met, white space or a comment follows its first word. -/
def ImportDecl.IsSpaced (source : List Char) (i : ImportDecl) : Prop :=
  ∀ c d : Cursor, c.text = source → c.hasReached i.extent.start = true →
    c.Passes "import".toList d → Trivia.next d.ahead ≠ .absent

/-- The tokens of a directive after its first word. A name of the source is spelled as one of C#, a
name of the settings as it stands there. -/
inductive Directive.Tokens : Directive → List String → Prop where
  | plain : Directive.Tokens (.all name) [name, ";"]
  | all {n : Name} : Directive.Tokens (.all n.dotted) (n.tokens ++ [";"])
  | single {n : Name} :
      Directive.Tokens (.single n.dotted) (n.last.identifier :: "=" :: n.tokens ++ [";"])

section

variable (apart : Prop)

/-- The text of a directive; if `apart`, there is something between its first word and the next. -/
inductive Directive.Text : Directive → List Char → Prop where
  | mk : Trivia.Runs gap rest → (apart → gap ≠ []) → Directive.Tokens d tokens →
      Spelled tokens text → Directive.Text d ("using".toList ++ (gap ++ text))

/-- The directives in their order, with white space and comments around them. -/
inductive DirectivesText : List Directive → List Char → Prop where
  | nil : DirectivesText [] []
  | trivia : Trivia.Runs gap rest → DirectivesText ds text → DirectivesText ds (gap ++ text)
  | directive : d.Text apart line → DirectivesText ds text →
      DirectivesText (d :: ds) (line ++ text)

end

theorem importDirective_csharp (name : String) : (importDirective .csharp name).toList =
    "using".toList ++ (" ".toList ++ (name.toList ++ ";".toList)) := by
  show ("using " ++ name ++ ";").toList = _
  rw [String.toList_append, String.toList_append, List.append_assoc]
  rfl

namespace DirectivesText

variable {apart : Prop} {ds ds' : List Directive} {text text' line gap rest : List Char}
  {d : Directive}

theorem single (h : d.Text apart line) : DirectivesText apart [d] line := by
  have hline : DirectivesText apart [d] (line ++ []) := .directive h .nil
  rwa [List.append_nil] at hline

theorem append (h : DirectivesText apart ds text) (h' : DirectivesText apart ds' text') :
    DirectivesText apart (ds ++ ds') (text ++ text') := by
  induction h with
  | nil => exact h'
  | trivia hgap _ ih =>
    rw [List.append_assoc]
    exact .trivia hgap ih
  | directive hline _ ih =>
    rw [List.append_assoc]
    exact .directive hline ih

/-- Each directive stands in the text. -/
theorem exists_text (h : DirectivesText apart ds text) (hmem : d ∈ ds) :
    ∃ before line behind, text = before ++ line ++ behind ∧ d.Text apart line := by
  induction h with
  | nil => cases hmem
  | @trivia gap _ _ _ _ _ ih =>
    obtain ⟨before, line, behind, rfl, hline⟩ := ih hmem
    exact ⟨gap ++ before, line, behind, by simp only [List.append_assoc], hline⟩
  | @directive _ text e line hline _ ih =>
    rcases List.mem_cons.1 hmem with rfl | hmem
    · exact ⟨[], line, text, rfl, hline⟩
    · obtain ⟨before, other, behind, rfl, hother⟩ := ih hmem
      exact ⟨line ++ before, other, behind, by simp only [List.append_assoc], hother⟩

/-- Directives that are added, as they are written. -/
theorem ofDirectiveText {names : List String} (h : DirectiveText .csharp names text) :
    DirectivesText apart (names.map .all) text := by
  induction h with
  | nil => exact .nil
  | @lineBreak names text _ ih =>
    have hbreak : Trivia.Runs "\n".toList [] := .single rfl
    exact .trivia hbreak ih
  | @directive names text name _ ih =>
    have hspace : Trivia.Runs " ".toList [] := .single rfl
    have htext : Directive.Text apart (.all name)
        ("using".toList ++ (" ".toList ++ (name.toList ++ ";".toList))) :=
      .mk hspace (fun _ => nofun) .plain (.token name (.single ";"))
    rw [importDirective_csharp]
    exact .directive htext ih

end DirectivesText

/-! ## What is noted -/

section

variable {α : Type} {key : α → String} {noted : List String} {xs ys : List α} {x : α}

theorem unnoted_append : unnoted key noted (xs ++ ys) =
    unnoted key noted xs ++ unnoted key (notedAfter key noted xs) ys := by
  induction xs generalizing noted with
  | nil => rfl
  | cons x xs ih =>
    rw [List.cons_append, unnoted, unnoted, ih, List.append_assoc]
    rfl

theorem unnoted_map {β : Type} {f : β → α} {zs : List β} :
    unnoted key noted (zs.map f) = (unnoted (fun z => key (f z)) noted zs).map f := by
  induction zs generalizing noted with
  | nil => rfl
  | cons z zs ih =>
    rw [List.map_cons, unnoted, unnoted, ih, List.map_append]
    split <;> rfl

/-- The first one of each key is kept, if its key has not been noted before. -/
theorem mem_unnoted : x ∈ unnoted key noted xs ↔
    key x ∉ noted ∧ xs.find? (key · == key x) = some x := by
  induction xs generalizing noted with
  | nil => simp [unnoted]
  | cons y ys ih =>
    rw [unnoted, List.mem_append, ih, mem_addNew, not_or]
    by_cases hkey : key y = key x
    · have hhead : x ∈ (if noted.contains (key y) then [] else [y]) ↔ key x ∉ noted ∧ y = x := by
        by_cases hnoted : key x ∈ noted <;> simp [hkey, hnoted, eq_comm]
      rw [hhead]
      simp [hkey]
    · have hhead : x ∉ if noted.contains (key y) then [] else [y] := by
        split
        · exact List.not_mem_nil
        · exact fun hmem => hkey (congrArg key (List.mem_singleton.1 hmem).symm)
      rw [or_iff_right hhead]
      simp [hkey, Ne.symm hkey]

theorem mem_unnoted_iff : x ∈ unnoted key [] xs ↔ xs.find? (key · == key x) = some x := by
  rw [mem_unnoted]
  exact and_iff_right List.not_mem_nil

end

/-! ## Imports -/

/-- The directives have been written, but for those whose names had been noted. -/
def Imported (apart : Prop) (ctx : Context) (ds : List Directive) (after : Context) : Prop :=
  ∃ cursor text, DirectivesText apart (unnoted Directive.key ctx.written ds) text ∧
    after = { ctx.moved cursor text with written := notedAfter Directive.key ctx.written ds }

variable {s : Settings} {apart : Prop} {ctx mid after : Context} {ds ds' : List Directive}

namespace Imported

theorem moved {cursor : Cursor} {gap rest : List Char} (h : Trivia.Runs gap rest) :
    Imported apart ctx [] (ctx.moved cursor gap) := by
  have hgap : DirectivesText apart [] (gap ++ []) := .trivia h .nil
  rw [List.append_nil] at hgap
  exact ⟨cursor, gap, hgap, rfl⟩

theorem trans (h : Imported apart ctx ds mid) (h' : Imported apart mid ds' after) :
    Imported apart ctx (ds ++ ds') after := by
  obtain ⟨c, text, htext, rfl⟩ := h
  obtain ⟨c', text', htext', rfl⟩ := h'
  refine ⟨c', text ++ text', ?_, ?_⟩
  · rw [unnoted_append]
    exact htext.append htext'
  · rw [notedAfter_append, ← Context.moved_moved ctx c]
    rfl

end Imported

/-- A new import becomes a directive, and one that is known is dropped. -/
theorem ImportDecl.NewCourse.imported {i : ImportDecl} {d : Directive} {tokens : List String}
    (h : ImportDecl.NewCourse d.key tokens ctx after) (htokens : d.Tokens (tokens ++ [";"]))
    (hspaced : apart → i.IsSpaced ctx.cursor.text)
    (hreached : ctx.cursor.hasReached i.extent.start = true) : Imported apart ctx [d] after := by
  unfold Imported
  rw [unnoted]
  cases h with
  | @known cursor hwritten hafter =>
    rw [if_pos hwritten]
    exact ⟨cursor, [], .nil, hafter⟩
  | @new c cursor gap _ text hwritten hpass habsent hruns htext hafter =>
    rw [if_neg (Bool.eq_false_iff.1 hwritten)]
    have hgap : apart → gap ≠ [] := fun hapart hempty =>
      hspaced hapart _ c rfl hreached hpass (habsent hempty)
    have hline : d.Text apart ("using".toList ++ (gap ++ text)) := .mk hruns hgap htokens htext
    exact ⟨cursor, _, .single hline, hafter⟩

/-- An import is dropped, or it asks for a directive. -/
theorem ImportDecl.render_imports (ht : s.target = .csharp) {i : ImportDecl}
    (hspaced : apart → i.IsSpaced ctx.cursor.text) (h : i.render s ctx = .ok () after) :
    Imported apart ctx (i.directive? s).toList after := by
  obtain ⟨hreached, hcourse⟩ := ImportDecl.render_course ht h
  unfold directive?
  cases hcourse with
  | @dropped cursor hmarked hafter =>
    rw [if_pos hmarked]
    exact ⟨cursor, [], .nil, hafter⟩
  | all hmarked hname hall hnew =>
    rw [if_neg (Bool.eq_false_iff.1 hmarked)]
    simp only [hname, if_pos hall]
    rw [← hname]
    exact hnew.imported (d := .all _) .all hspaced hreached
  | @generic _ qualifier _ _ hmarked hname hone hgeneric hnew =>
    rw [if_neg (Bool.eq_false_iff.1 hmarked)]
    simp only [hname, hone, Bool.false_eq_true, if_false, if_pos hgeneric]
    exact hnew.imported (d := .all _) .plain hspaced hreached
  | single hmarked hname hone hplain hnew =>
    rw [if_neg (Bool.eq_false_iff.1 hmarked)]
    simp only [hname, hone, hplain, Bool.false_eq_true, if_false]
    rw [← hname]
    exact hnew.imported (d := .single _) .single hspaced hreached

/-- The imports become directives in their order. -/
theorem renderImports_directives (ht : s.target = .csharp) {limit : Nat} {imports : List ImportDecl}
    (hspaced : apart → ∀ i ∈ imports, i.IsSpaced ctx.cursor.text)
    (h : renderImports s limit imports ctx = .ok () after) :
    Imported apart ctx (imports.filterMap (·.directive? s)) after := by
  induction imports generalizing ctx with
  | nil =>
    cases h
    exact ⟨after.cursor, [], .nil, by rw [Context.moved_self]; rfl⟩
  | cons i rest ih =>
    obtain ⟨_, ctx₁, hcopy, h⟩ := bind_ok.1 h
    have htext₁ := (copyTriviaUntil_leaves (some limit)).ok hcopy |>.text
    obtain ⟨gap, cursor, hskip, -, rfl⟩ := copyTriviaUntil_ok hcopy
    obtain ⟨-, hruns, -⟩ := skipTrivia_ok hskip
    obtain ⟨_, ctx₂, hrender, h⟩ := bind_ok.1 h
    have htext₂ := ((i.render_leaves s).ok hrender).text.trans htext₁
    have hfirst : Imported apart _ (i.directive? s).toList ctx₂ := ImportDecl.render_imports ht
      (fun hapart => htext₁ ▸ hspaced hapart i List.mem_cons_self) hrender
    have hrest := ih (fun hapart j hj => htext₂ ▸ hspaced hapart j (List.mem_cons_of_mem i hj)) h
    have hall := ((Imported.moved hruns).trans hfirst).trans hrest
    rw [List.nil_append] at hall
    rw [List.filterMap_cons]
    cases hdirective : i.directive? s with
    | none => rwa [hdirective] at hall
    | some d => rwa [hdirective] at hall

/-! ## Units -/

theorem Directive.notedAfter_all {noted names : List String} :
    notedAfter Directive.key noted (names.map .all) = notedAfter id noted names :=
  List.foldl_map

theorem renderAddedImports_directives (ht : s.target = .csharp) (hend : ctx.writer.lineEnd = "\n")
    (h : renderAddedImports s ctx = .ok () after) :
    Imported apart ctx ((s.extraImports ++ ctx.required).map .all) after := by
  obtain ⟨text, htext, rfl⟩ := renderAddedImports_ok hend h
  rw [ht] at htext
  refine ⟨ctx.cursor, text, ?_, by rw [Directive.notedAfter_all]⟩
  rw [unnoted_map]
  exact .ofDirectiveText htext

/-- Between the trivia before it and the body, the head of a file holds the directives that have
been asked for, the first one of each name. -/
theorem CompilationUnit.renderWith_directives (ht : s.target = .csharp) {u : CompilationUnit}
    {type : TypeDecl} (htypes : u.types = [type]) (hindent : ctx.writer.indentation = 0)
    (hend : ctx.writer.lineEnd = "\n") (hwritten : ctx.written = [])
    (h : u.renderWith s type ctx = .ok () after) :
    (∃ front head back, after.writer = ctx.writer.added (front ++ head ++ back) ∧
      DirectivesText (∀ i ∈ u.imports, i.IsSpaced ctx.cursor.text)
        (unnoted Directive.key [] (u.directives s after.required)) head) ∧
    ∀ name, u.Needs s name → name ∈ after.required := by
  obtain ⟨c⟩ := u.renderWith_ok hindent hend h
  have himported : Imported (∀ i ∈ u.imports, i.IsSpaced ctx.cursor.text) c.head _ c.imported :=
    renderImports_directives ht (fun hapart i hi => c.head_text ▸ hapart i hi) c.imports
  have hendImported : c.imported.writer.lineEnd = "\n" := by
    rw [((renderImports_leaves s _ _).ok c.imports).writer.lineEnd, c.head_writer,
      Writer.lineEnd_added, hend]
  have hadded : Imported (∀ i ∈ u.imports, i.IsSpaced ctx.cursor.text) c.imported _ c.last :=
    renderAddedImports_directives ht hendImported c.added
  have hrequired : c.imported.required = c.inside.required := by
    obtain ⟨_, _, -, himported⟩ := himported
    rw [himported, ← c.head_required]
    rfl
  have hafter : after.required = c.inside.required := by
    obtain ⟨_, _, -, hadded⟩ := hadded
    rw [c.after_required, hadded, ← hrequired]
    rfl
  obtain ⟨_, head, hhead, hlast⟩ := himported.trans hadded
  rw [c.head_written, hwritten, hrequired, ← hafter] at hhead
  refine ⟨⟨_, head, _, c.writer (by rw [hlast]; rfl), hhead⟩, ?_⟩
  intro name hneeds
  rw [hafter]
  exact u.mem_required ht htypes c.body hneeds

/-- In C#, when a unit is rendered, the output consists of what comes before its imports, of the
directives, and of what comes after. The directives are asked for by the imports, by the settings
and by the types in the body, and the first one of each name is written, so one is lost just if a
directive of the other kind has taken its name. -/
theorem CompilationUnit.render_directives (ht : s.target = .csharp) {u : CompilationUnit}
    {input : String} (h : u.render s (.start input true) = .ok () after) :
    (∃ front head back,
      renderUnit s input true u = ⟨none, String.ofList (front ++ head ++ back)⟩ ∧
      DirectivesText (∀ i ∈ u.imports, i.IsSpaced input.toList)
        (unnoted Directive.key [] (u.directives s after.required)) head ∧
      ∀ d ∈ unnoted Directive.key [] (u.directives s after.required), ∃ before line behind,
        head = before ++ line ++ behind ∧
        d.Text (∀ i ∈ u.imports, i.IsSpaced input.toList) line) ∧
    (∀ d, d ∈ unnoted Directive.key [] (u.directives s after.required) ↔
      (u.directives s after.required).find? (·.key == d.key) = some d) ∧
    ∀ name, u.Needs s name → name ∈ after.required := by
  obtain ⟨type, htypes, hwith⟩ := u.render_ok h
  obtain ⟨⟨front, head, back, hwriter, hhead⟩, hneeded⟩ :=
    u.renderWith_directives ht htypes rfl rfl rfl hwith
  refine ⟨⟨front, head, back, ?_, hhead, fun d hd => hhead.exists_text hd⟩,
    fun d => mem_unnoted_iff, hneeded⟩
  have hreceived := Writer.current_added_of_indentation_eq_zero (w := .new true "\n") rfl
    (front ++ head ++ back)
  simp only [renderUnit, runFrom, Node.render, h, hwriter]
  exact congrArg (Outcome.mk none) (hreceived.trans String.empty_append)

/-- Two imports, a namespace of the settings, and one that the type of a field needs. -/
theorem CompilationUnit.render_directives_field :
    let s : Settings :=
      { Settings.ofTarget .csharp with
        extraImports := ["System"], implicitImports := .ofList [("x.F", "N")] }
    let u : CompilationUnit :=
      ⟨⟨0, 42⟩, none,
        [⟨⟨0, 11⟩, .qualified ⟨7, 10⟩ (.simple ⟨⟨7, 8⟩, "a"⟩) ⟨⟨9, 10⟩, "B"⟩ none, false, false,
          none⟩,
        ⟨⟨12, 25⟩, .qualified ⟨19, 22⟩ (.simple ⟨⟨19, 20⟩, "c"⟩) ⟨⟨21, 22⟩, "d"⟩ none, false, true,
          none⟩],
        [⟨⟨⟨26, 42⟩, .class, [], ⟨⟨32, 33⟩, "A"⟩, [], none, []⟩,
          [.field ⟨⟨36, 40⟩, [],
            .named ⟨36, 37⟩ (.simple ⟨⟨36, 37⟩, "F"⟩) (some ⟨"x.F", false⟩),
            [⟨⟨38, 39⟩, ⟨⟨38, 39⟩, "f"⟩, 0, none⟩]⟩]⟩]⟩
    let input := "import a.B;\nimport c.d.*;\nclass A \x7b F f; \x7d"
    s.target = .csharp ∧ ∃ after, u.render s (.start input true) = .ok () after ∧
      ∃ front head back,
        renderUnit s input true u = ⟨none, String.ofList (front ++ head ++ back)⟩ ∧
        DirectivesText (∀ i ∈ u.imports, i.IsSpaced input.toList)
          [.single "a.B", .all "c.d", .all "System", .all "N"] head := by
  intro s u input
  obtain ⟨after, hrun, -⟩ := runFrom_ok (by decide +kernel : renderUnit s input true u =
    ⟨none, "using B = a.B;\nusing c.d;\nusing System;\nusing N;\nclass A \x7b F f; \x7d"⟩)
  have hrequired : after.required = ["N"] := by
    have hafter : (u.render s >>= fun _ => Context.required <$> get) (.start input true) =
        .ok after.required after := bind_ok.2 ⟨(), after, hrun, rfl⟩
    have hnoted : (u.render s >>= fun _ => Context.required <$> get).run' (.start input true) =
        some ["N"] := by decide +kernel
    delta EStateM.run' at hnoted
    rw [EStateM.run, hafter] at hnoted
    exact Option.some.inj hnoted
  obtain ⟨⟨front, head, back, hout, hhead, -⟩, -, -⟩ :=
    CompilationUnit.render_directives (s := s) (u := u) rfl hrun
  rw [hrequired] at hhead
  exact ⟨rfl, after, hrun, front, head, back, hout, hhead⟩

/-- An import of all of a package is lost when a type of the package's name has been imported. -/
theorem CompilationUnit.render_loses_import :
    let single : ImportDecl :=
      ⟨⟨0, 11⟩, .qualified ⟨7, 10⟩ (.simple ⟨⟨7, 8⟩, "a"⟩) ⟨⟨9, 10⟩, "B"⟩ none, false, false, none⟩
    let whole : ImportDecl :=
      ⟨⟨12, 25⟩, .qualified ⟨19, 22⟩ (.simple ⟨⟨19, 20⟩, "a"⟩) ⟨⟨21, 22⟩, "B"⟩ none, false, true,
        none⟩
    let u : CompilationUnit :=
      ⟨⟨0, 37⟩, none, [single, whole],
        [⟨⟨⟨26, 37⟩, .class, [], ⟨⟨32, 33⟩, "A"⟩, [], none, []⟩, []⟩]⟩
    single.directive? (.ofTarget .csharp) = some (.single "a.B") ∧
      whole.directive? (.ofTarget .csharp) = some (.all "a.B") ∧
      renderUnit (.ofTarget .csharp) "import a.B;\nimport a.B.*;\nclass A \x7b \x7d" true u =
        ⟨none, "using B = a.B;\nclass A \x7b \x7d"⟩ ∧
      ¬ "using a.B;".toList <:+: "using B = a.B;\nclass A \x7b \x7d".toList := by
  decide +kernel

end Tree

end Lockstep
