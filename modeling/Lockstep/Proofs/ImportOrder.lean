import Lockstep.Proofs.ImportDirectives
import Mathlib.Data.List.Basic

/-!
# The order of imports

In C# and in Swift the head of a file imports nothing twice. First come the directives for the
imports of the source, then those for the namespaces of the settings in their order, then those for
the namespaces that the body requires, in the order in which its script first comes upon them.

- `unnoted_unnoted`: noting names twice over is noting them once.
- `HeadLines`: a text of directives, for C# and for Swift.
- `CompilationUnit.render_imports_once`: the theorem about units.
-/

namespace Lockstep

open Config Output Render Source Target Text Lockstep.Tree

namespace Render

/-! ## Noting names -/

section

variable {α : Type} {key : α → String} {noted seen : List String} {xs ys : List α}

/-- None of those that are left has the key of another. -/
theorem unnoted_keys_nodup (key : α → String) (noted : List String) (xs : List α) :
    ((unnoted key noted xs).map key).Nodup := by
  induction xs generalizing noted with
  | nil => exact List.nodup_nil
  | cons x xs ih =>
    rw [unnoted]
    split
    · exact ih _
    · rw [List.singleton_append, List.map_cons, List.nodup_cons]
      refine ⟨?_, ih _⟩
      intro hmem
      obtain ⟨y, hy, hkey⟩ := List.mem_map.1 hmem
      apply (mem_unnoted.1 hy).1
      rw [hkey]
      exact mem_addNew.2 (.inr rfl)

theorem notedAfter_eq (noted names : List String) :
    notedAfter id noted names = noted ++ unnoted id noted names := by
  induction names generalizing noted with
  | nil => exact (List.append_nil noted).symm
  | cons name names ih =>
    have hcons : notedAfter id noted (name :: names) =
        notedAfter id (addNew noted name) names := rfl
    rw [hcons, ih, unnoted, id, addNew]
    split
    · rfl
    · rw [List.append_assoc]

theorem addNew_of_mem {names : List String} {name : String} (h : name ∈ names) :
    addNew names name = names := if_pos (List.contains_iff_mem.2 h)

theorem addNew_subset {name : String} (h : seen ⊆ noted) :
    addNew seen name ⊆ addNew noted name := by
  intro other hother
  rcases mem_addNew.1 hother with hseen | rfl
  · exact mem_addNew.2 (.inl (h hseen))
  · exact mem_addNew.2 (.inr rfl)

/-- What has been left out for good reason once need not be looked at again. -/
theorem unnoted_unnoted {names : List String} (h : seen ⊆ noted) :
    unnoted id noted (unnoted id seen names) = unnoted id noted names := by
  induction names generalizing seen noted with
  | nil => rfl
  | cons name names ih =>
    rw [unnoted, id]
    by_cases hseen : name ∈ seen
    · rw [if_pos (List.contains_iff_mem.2 hseen), List.nil_append, addNew_of_mem hseen, ih h,
        unnoted, id, if_pos (List.contains_iff_mem.2 (h hseen)), List.nil_append,
        addNew_of_mem (h hseen)]
    · rw [if_neg (mt List.contains_iff_mem.1 hseen), List.singleton_append, unnoted, unnoted, id,
        ih (addNew_subset h)]

end

end Render

namespace Tree

variable {s : Settings} {ctx mid after : Context}

/-! ## Texts of directives -/

section

variable (apart : Prop)

/-- What a directive looks like. Swift has no other than those for all of a namespace. -/
inductive Directive.Line : Target → Directive → List Char → Prop where
  | csharp : d.Text apart line → Directive.Line .csharp d line
  | swift : Directive.Line .swift (.all name) (importDirective .swift name).toList

/-- The directives in their order, with white space and comments around them. -/
inductive HeadLines (target : Target) : List Directive → List Char → Prop where
  | nil : HeadLines target [] []
  | trivia : Trivia.Runs gap rest → HeadLines target ds text → HeadLines target ds (gap ++ text)
  | directive : d.Line apart target line → HeadLines target ds text →
      HeadLines target (d :: ds) (line ++ text)

end

namespace HeadLines

variable {apart : Prop} {target : Target} {ds ds' : List Directive} {text text' : List Char}

theorem append (h : HeadLines apart target ds text) (h' : HeadLines apart target ds' text') :
    HeadLines apart target (ds ++ ds') (text ++ text') := by
  induction h with
  | nil => exact h'
  | trivia hgap _ ih =>
    rw [List.append_assoc]
    exact .trivia hgap ih
  | directive hline _ ih =>
    rw [List.append_assoc]
    exact .directive hline ih

theorem ofDirectivesText (h : DirectivesText apart ds text) : HeadLines apart .csharp ds text := by
  induction h with
  | nil => exact .nil
  | trivia hgap _ ih => exact .trivia hgap ih
  | directive hline _ ih => exact .directive (.csharp hline) ih

theorem ofDirectiveText {names : List String} (h : DirectiveText .swift names text) :
    HeadLines apart .swift (names.map .all) text := by
  induction h with
  | nil => exact .nil
  | lineBreak _ ih =>
    have hbreak : Trivia.Runs "\n".toList [] := .single rfl
    exact .trivia hbreak ih
  | directive _ ih => exact .directive .swift ih

theorem ofSpelled (h : Spelled [] text) : HeadLines apart target [] text := by
  generalize htokens : ([] : List String) = tokens at h
  induction h with
  | nil => exact .nil
  | trivia hgap _ ih => exact .trivia hgap (ih htokens)
  | token => cases htokens

end HeadLines

/-- The name behind a full stop is how the whole name ends. -/
theorem Name.last_suffix (n : Name) : n.last.identifier.toList <:+ n.dotted.toList := by
  cases n with
  | simple n => exact List.suffix_rfl
  | qualified extent qualifier n binding =>
    rw [Name.dotted, String.toList_append]
    exact List.suffix_append _ _

/-- What tokens say in C#, where `@x` is another spelling of `x`. -/
def unescaped (tokens : List String) : List Char :=
  (tokens.flatMap String.toList).filter (· ≠ '@')

@[simp]
theorem unescaped_append (tokens tokens' : List String) :
    unescaped (tokens ++ tokens') = unescaped tokens ++ unescaped tokens' := by
  rw [unescaped, List.flatMap_append, List.filter_append]
  rfl

theorem unescaped_singleton {token : String} (h : '@' ∉ token.toList) :
    unescaped [token] = token.toList := by
  rw [unescaped, List.flatMap_singleton, List.filter_eq_self]
  intro c hc
  apply decide_eq_true
  rintro rfl
  exact h hc

theorem unescaped_escaped {identifier : String} (h : '@' ∉ identifier.toList) :
    unescaped [Target.csharp.escaped identifier] = identifier.toList := by
  unfold Target.escaped
  split
  · have hsplit : unescaped ["@" ++ identifier] = unescaped ["@"] ++ unescaped [identifier] := by
      rw [unescaped, List.flatMap_singleton, String.toList_append, List.filter_append]
      simp [unescaped]
    rw [hsplit, unescaped_singleton h]
    rfl
  · exact unescaped_singleton h

theorem Name.unescaped_tokens {n : Name} (h : '@' ∉ n.dotted.toList) :
    unescaped n.tokens = n.dotted.toList := by
  induction n with
  | simple n => exact unescaped_escaped h
  | qualified extent qualifier n binding ih =>
    rw [Name.dotted, String.toList_append, String.toList_append, List.mem_append,
      List.mem_append, not_or, not_or] at h
    obtain ⟨⟨hqualifier, hstop⟩, hname⟩ := h
    have hpair : [".", Target.csharp.escaped n.identifier] =
        ["."] ++ [Target.csharp.escaped n.identifier] := rfl
    rw [Name.tokens, hpair, unescaped_append, unescaped_append, ih hqualifier,
      unescaped_singleton hstop, unescaped_escaped hname, Name.dotted, String.toList_append,
      String.toList_append, List.append_assoc]

namespace Directive

variable {d d' : Directive} {tokens tokens' : List String}

/-- No character of the name has a meaning of its own in a directive, as in every name of the source
language and in every dotted name. -/
def IsPlain (d : Directive) : Prop := '@' ∉ d.key.toList ∧ '=' ∉ d.key.toList

/-- What the tokens of a directive say. -/
theorem Tokens.unescaped_eq (h : d.Tokens tokens) (hplain : d.IsPlain) :
    (d = .all d.key ∧ unescaped tokens = d.key.toList ++ [';']) ∨
      ∃ own : List Char, '=' ∉ own ∧ d = .single d.key ∧
        unescaped tokens = own ++ '=' :: (d.key.toList ++ [';']) := by
  cases h with
  | @plain name =>
    refine .inl ⟨rfl, ?_⟩
    have hpair : [name, ";"] = [name] ++ [";"] := rfl
    rw [hpair, unescaped_append, unescaped_singleton (by exact hplain.1)]
    rfl
  | @all n =>
    refine .inl ⟨rfl, ?_⟩
    rw [unescaped_append, Name.unescaped_tokens hplain.1]
    rfl
  | @single n =>
    have hsuffix := n.last_suffix
    have hat : '@' ∉ n.last.identifier.toList := fun hmem => hplain.1 (hsuffix.subset hmem)
    refine .inr ⟨n.last.identifier.toList, fun hmem => hplain.2 (hsuffix.subset hmem), rfl, ?_⟩
    have hparts : n.last.identifier :: "=" :: n.tokens ++ [";"] =
        [n.last.identifier] ++ (["="] ++ (n.tokens ++ [";"])) := rfl
    rw [hparts, unescaped_append, unescaped_append, unescaped_append,
      unescaped_singleton hat, Name.unescaped_tokens hplain.1]
    rfl

/-- Directives that say the same are the same. -/
theorem Tokens.injective (h : d.Tokens tokens) (h' : d'.Tokens tokens') (hplain : d.IsPlain)
    (hplain' : d'.IsPlain) (heq : unescaped tokens = unescaped tokens') : d = d' := by
  have hall {e : Directive} (he : e.IsPlain) : '=' ∉ e.key.toList ++ [';'] := by
    rw [List.mem_append, not_or]
    exact ⟨he.2, by decide⟩
  have hsingle (own rest : List Char) : '=' ∈ own ++ '=' :: rest :=
    List.mem_append_right _ List.mem_cons_self
  rcases h.unescaped_eq hplain with ⟨hd, htext⟩ | ⟨own, hown, hd, htext⟩ <;>
    rcases h'.unescaped_eq hplain' with ⟨hd', htext'⟩ | ⟨own', hown', hd', htext'⟩ <;>
    rw [htext, htext'] at heq
  · rw [hd, hd', String.toList_inj.1 (List.append_cancel_right heq)]
  · exact absurd (heq ▸ hsingle own' _) (hall hplain)
  · exact absurd (heq ▸ hsingle own _) (hall hplain')
  · obtain ⟨-, -, hkey⟩ := (List.append_cons_inj_of_notMem hown (hall hplain)).1 heq
    rw [hd, hd', String.toList_inj.1 (List.append_cancel_right hkey)]

/-- However the directives are spelled, they say different things. -/
def Differs (d d' : Directive) : Prop :=
  d.IsPlain → d'.IsPlain → ∀ tokens tokens', d.Tokens tokens → d'.Tokens tokens' →
    unescaped tokens ≠ unescaped tokens'

theorem differs_of_key_ne (h : d.key ≠ d'.key) : d.Differs d' := by
  intro hplain hplain' tokens tokens' htokens htokens' heq
  apply h
  rw [htokens.injective htokens' hplain hplain' heq]

end Directive

/-! ## Imports -/

/-- The directives have been written, but for those whose names had been noted. -/
def Heads (apart : Prop) (target : Target) (ctx : Context) (ds : List Directive)
    (after : Context) : Prop :=
  ∃ cursor text, HeadLines apart target (unnoted Directive.key ctx.written ds) text ∧
    after = { ctx.moved cursor text with written := notedAfter Directive.key ctx.written ds }

variable {apart : Prop} {ds ds' : List Directive}

theorem Imported.heads (ht : s.target = .csharp) (h : Imported apart ctx ds after) :
    Heads apart s.target ctx ds after := by
  obtain ⟨cursor, text, htext, hafter⟩ := h
  exact ⟨cursor, text, ht ▸ .ofDirectivesText htext, hafter⟩

theorem Heads.trans {target : Target} (h : Heads apart target ctx ds mid)
    (h' : Heads apart target mid ds' after) : Heads apart target ctx (ds ++ ds') after := by
  obtain ⟨c, text, htext, rfl⟩ := h
  obtain ⟨c', text', htext', rfl⟩ := h'
  refine ⟨c', text ++ text', ?_, ?_⟩
  · rw [unnoted_append]
    exact htext.append htext'
  · rw [notedAfter_append, ← Context.moved_moved ctx c]
    rfl

/-- The directives that the imports of the source ask for; in Swift they are dropped. -/
def CompilationUnit.translated (s : Settings) (u : CompilationUnit) : List Directive :=
  match s.target with
  | .csharp => u.imports.filterMap (·.directive? s)
  | .swift | .cpp => []

theorem ImportDecl.render_dropped (ht : s.target = .swift) {i : ImportDecl}
    (h : i.render s ctx = .ok () after) : ∃ cursor, after = ctx.moved cursor [] := by
  obtain ⟨-, -, h⟩ := inNode_ok h
  cases hstatic : i.isStatic with
  | true =>
    rw [hstatic] at h
    cases h
  | false =>
    simp only [hstatic, Bool.false_eq_true, if_false, ht] at h
    cases hname : i.name with
    | simple n =>
      rw [hname] at h
      cases h
    | qualified extent qualifier n binding =>
      simp only [hname, show (Target.swift == .swift) = true from rfl, Bool.or_true, if_true] at h
      exact i.skip_ok h

/-- Of the imports only the trivia between them are left. -/
theorem renderImports_dropped (ht : s.target = .swift) {limit : Nat} {imports : List ImportDecl}
    (h : renderImports s limit imports ctx = .ok () after) :
    ∃ cursor gap, Spelled [] gap ∧ after = ctx.moved cursor gap := by
  induction imports generalizing ctx with
  | nil =>
    cases h
    exact ⟨after.cursor, [], .nil, (Context.moved_self _).symm⟩
  | cons i rest ih =>
    obtain ⟨_, ctx₁, hcopy, h⟩ := bind_ok.1 h
    obtain ⟨_, gap, hgap, rfl⟩ := copyTriviaUntil_spelled hcopy
    obtain ⟨_, ctx₂, hrender, h⟩ := bind_ok.1 h
    obtain ⟨_, rfl⟩ := ImportDecl.render_dropped ht hrender
    obtain ⟨cursor, gap', hgap', rfl⟩ := ih h
    refine ⟨cursor, gap ++ gap', hgap.append hgap', ?_⟩
    rw [Context.moved_moved, Context.moved_moved, List.nil_append]

theorem renderImports_heads (ht : s.target ≠ .cpp) {u : CompilationUnit} {limit : Nat}
    (hspaced : apart → ∀ i ∈ u.imports, i.IsSpaced ctx.cursor.text)
    (h : renderImports s limit u.imports ctx = .ok () after) :
    Heads apart s.target ctx (u.translated s) after := by
  unfold CompilationUnit.translated
  cases htarget : s.target with
  | csharp =>
    have hall := (renderImports_directives htarget hspaced h).heads htarget
    rwa [htarget] at hall
  | swift =>
    obtain ⟨cursor, gap, hgap, rfl⟩ := renderImports_dropped htarget h
    exact ⟨cursor, gap, .ofSpelled hgap, rfl⟩
  | cpp => exact absurd htarget ht

theorem renderAddedImports_heads (ht : s.target ≠ .cpp) (hend : ctx.writer.lineEnd = "\n")
    (h : renderAddedImports s ctx = .ok () after) :
    Heads apart s.target ctx ((s.extraImports ++ ctx.required).map .all) after := by
  cases htarget : s.target with
  | csharp => exact htarget ▸ (renderAddedImports_directives htarget hend h).heads htarget
  | swift =>
    obtain ⟨text, htext, rfl⟩ := renderAddedImports_ok hend h
    rw [htarget] at htext
    refine ⟨ctx.cursor, text, ?_, by rw [Directive.notedAfter_all]⟩
    rw [unnoted_map]
    exact .ofDirectiveText htext
  | cpp => exact absurd htarget ht

/-! ## Units -/

/-- What imports something for a unit that declares the type, each time that it is asked for. -/
def CompilationUnit.asked (s : Settings) (u : CompilationUnit) (type : TypeDecl) :
    List Directive :=
  u.translated s ++ (s.extraImports ++ Step.allRequirements (type.script s)).map .all

/-- The first ones of each name come in three parts, each in the order in which it is asked for. -/
theorem CompilationUnit.unnoted_asked (s : Settings) (u : CompilationUnit) (type : TypeDecl) :
    ∃ imported, ∃ extra needed : List String,
      unnoted Directive.key [] (u.asked s type) = imported ++ (extra ++ needed).map .all ∧
      imported.Sublist (u.translated s) ∧ extra.Sublist s.extraImports ∧
      needed.Sublist (Step.allRequirements (type.script s)) := by
  have hsplit : unnoted Directive.key [] (u.asked s type) =
      unnoted Directive.key [] (u.translated s) ++
        (unnoted (fun name => Directive.key (.all name))
          (notedAfter Directive.key [] (u.translated s))
          (s.extraImports ++ Step.allRequirements (type.script s))).map .all := by
    rw [asked, unnoted_append, unnoted_map]
  rw [unnoted_append] at hsplit
  exact ⟨_, _, _, hsplit, unnoted_sublist .., unnoted_sublist .., unnoted_sublist ..⟩

/-- It does not matter that the body has noted each name once only. -/
theorem unnoted_notedAfter (noted : List String) (ds : List Directive) (extra needed : List String) :
    unnoted Directive.key noted (ds ++ (extra ++ notedAfter id [] needed).map .all) =
      unnoted Directive.key noted (ds ++ (extra ++ needed).map .all) := by
  rw [notedAfter_eq, List.nil_append, List.map_append, List.map_append, unnoted_append,
    unnoted_append, unnoted_append, unnoted_append]
  congr 2
  rw [unnoted_map, unnoted_map]
  exact congrArg _ (unnoted_unnoted (List.nil_subset _))

/-- Behind the trivia at its beginning, a file has the directives that are asked for, the first one
of each name. -/
theorem CompilationUnit.renderWith_heads (ht : s.target ≠ .cpp) {u : CompilationUnit}
    {type : TypeDecl} (hindent : ctx.writer.indentation = 0) (hend : ctx.writer.lineEnd = "\n")
    (hwritten : ctx.written = []) (hrequired : ctx.required = [])
    (h : u.renderWith s type ctx = .ok () after) :
    ∃ front head back, after.writer = ctx.writer.added (front ++ head ++ back) ∧
      Spelled [] front ∧
      HeadLines (∀ i ∈ u.imports, i.IsSpaced ctx.cursor.text) s.target
        (unnoted Directive.key [] (u.asked s type)) head := by
  obtain ⟨c⟩ := u.renderWith_ok hindent hend h
  have hstart : c.start.writer.lineEnd = "\n" := by
    obtain ⟨text, hstart⟩ := c.start_writer
    rw [hstart]
    exact (Writer.lineEnd_added text).trans hend
  have hneeded : c.head.required = notedAfter id [] (Step.allRequirements (type.script s)) := by
    rw [c.head_required, (renderBody_notes hstart c.body).2, c.start_required, hrequired]
  have hhead : Heads (∀ i ∈ u.imports, i.IsSpaced ctx.cursor.text) s.target c.head _ c.imported :=
    renderImports_heads ht (fun hapart i hi => c.head_text ▸ hapart i hi) c.imports
  have himported : c.imported.required = c.head.required := by
    obtain ⟨_, _, -, himported⟩ := hhead
    rw [himported]
    rfl
  have hendImported : c.imported.writer.lineEnd = "\n" := by
    rw [((renderImports_leaves s _ _).ok c.imports).writer.lineEnd, c.head_writer,
      Writer.lineEnd_added, hend]
  obtain ⟨_, head, hlines, hlast⟩ := hhead.trans (renderAddedImports_heads ht hendImported c.added)
  rw [c.head_written, hwritten, himported, hneeded, unnoted_notedAfter] at hlines
  exact ⟨_, head, _, c.writer (by rw [hlast]; rfl), c.lead_trivia, hlines⟩

/-- **Nothing is imported twice.** When a unit is rendered to C# or Swift, the directives stand at
the head of the output. They are those that the imports of the source ask for, then those for the
namespaces of the settings, then those for the namespaces that the body requires, each in their
order and each where its name comes first. No two of them have one name, and no two say the same. -/
theorem CompilationUnit.render_imports_once (ht : s.target ≠ .cpp) {u : CompilationUnit}
    {input : String} (h : u.render s (.start input true) = .ok () after) :
    ∃ type front head back imported, ∃ extra needed : List String,
      u.types = [type] ∧
      renderUnit s input true u = ⟨none, String.ofList (front ++ head ++ back)⟩ ∧
      Spelled [] front ∧
      HeadLines (∀ i ∈ u.imports, i.IsSpaced input.toList) s.target
        (imported ++ (extra ++ needed).map .all) head ∧
      imported ++ (extra ++ needed).map .all = unnoted Directive.key [] (u.asked s type) ∧
      imported.Sublist (u.translated s) ∧ extra.Sublist s.extraImports ∧
      needed.Sublist (Step.allRequirements (type.script s)) ∧
      ((imported ++ (extra ++ needed).map .all).map Directive.key).Nodup ∧
      List.Pairwise Directive.Differs (imported ++ (extra ++ needed).map .all) := by
  obtain ⟨type, htypes, hwith⟩ := u.render_ok h
  obtain ⟨front, head, back, hwriter, hfront, hhead⟩ :=
    u.renderWith_heads ht rfl rfl rfl rfl hwith
  have hreceived := Writer.current_added_of_indentation_eq_zero (w := .new true "\n") rfl
    (front ++ head ++ back)
  have houtput : renderUnit s input true u = ⟨none, String.ofList (front ++ head ++ back)⟩ := by
    simp only [renderUnit, runFrom, Node.render, h, hwriter]
    exact congrArg (Outcome.mk none) (hreceived.trans String.empty_append)
  have hnodup := unnoted_keys_nodup Directive.key [] (u.asked s type)
  obtain ⟨imported, extra, needed, hsplit, himported, hextra, hneeded⟩ := u.unnoted_asked s type
  rw [hsplit] at hhead hnodup
  refine ⟨type, front, head, back, imported, extra, needed, htypes, houtput, hfront, hhead,
    hsplit.symm, himported, hextra, hneeded, hnodup, ?_⟩
  exact (List.pairwise_map.1 hnodup).imp Directive.differs_of_key_ne

/-- A package that the settings import again, a type that is imported twice, and a namespace that a
field needs. -/
theorem CompilationUnit.render_imports_once_field :
    let s : Settings :=
      { Settings.ofTarget .csharp with
        extraImports := ["c.d", "System"], implicitImports := .ofList [("x.F", "N")] }
    let single (pos : UInt32) : ImportDecl :=
      ⟨⟨pos, pos + 11⟩, .qualified ⟨pos + 7, pos + 10⟩ (.simple ⟨⟨pos + 7, pos + 8⟩, "a"⟩)
        ⟨⟨pos + 9, pos + 10⟩, "B"⟩ none, false, false, none⟩
    let u : CompilationUnit :=
      ⟨⟨0, 54⟩, none,
        [⟨⟨0, 13⟩, .qualified ⟨7, 10⟩ (.simple ⟨⟨7, 8⟩, "c"⟩) ⟨⟨9, 10⟩, "d"⟩ none, false, true,
          none⟩, single 14, single 26],
        [⟨⟨⟨38, 54⟩, .class, [], ⟨⟨44, 45⟩, "A"⟩, [], none, []⟩,
          [.field ⟨⟨48, 52⟩, [],
            .named ⟨48, 49⟩ (.simple ⟨⟨48, 49⟩, "F"⟩) (some ⟨"x.F", false⟩),
            [⟨⟨50, 51⟩, ⟨⟨50, 51⟩, "f"⟩, 0, none⟩]⟩]⟩]⟩
    let input := "import c.d.*;\nimport a.B;\nimport a.B;\nclass A \x7b F f; \x7d"
    s.target ≠ .cpp ∧ ∃ after, u.render s (.start input true) = .ok () after ∧
      ∃ front head back,
        renderUnit s input true u = ⟨none, String.ofList (front ++ head ++ back)⟩ ∧
        HeadLines (∀ i ∈ u.imports, i.IsSpaced input.toList) .csharp
          [.all "c.d", .single "a.B", .all "System", .all "N"] head := by
  intro s single u input
  obtain ⟨after, hrun, -⟩ := runFrom_ok (by decide +kernel : renderUnit s input true u =
    ⟨none, "using c.d;\nusing B = a.B;\nusing System;\nusing N;\nclass A \x7b F f; \x7d"⟩)
  have ht : s.target ≠ .cpp := by decide
  obtain ⟨type, front, head, back, imported, extra, needed, htypes, houtput, -, hhead, hasked, -⟩ :=
    CompilationUnit.render_imports_once ht hrun
  cases htypes
  have hdirectives : unnoted Directive.key [] (u.asked s u.types[0]) =
      [.all "c.d", .single "a.B", .all "System", .all "N"] := by decide +kernel
  rw [hasked.trans hdirectives] at hhead
  exact ⟨ht, after, hrun, front, head, back, houtput, hhead⟩

end Tree

end Lockstep
