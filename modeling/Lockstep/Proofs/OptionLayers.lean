import Lockstep.Config.Settings
import Lockstep.Proofs.OrderedMaps

/-!
# Options in layers

Layers of options are folded onto the empty options, and the settings are made from what comes out.
Three rules are at work: the target and the width are replaced, maps are put on top of each other
and lists are appended. The first two are one rule for what is looked up, be it an option or a name
in a map: the last layer that sets it counts (`lastSet_merged`).

- `Options.merge_assoc`, `Options.empty_merge`, `Options.merge_empty`: layers form a monoid.
- `Settings.check_eq_ok`: which options are accepted.
- `Settings.distinct_eq_eraseDups`: of equal imports the first stays.
- `Settings.ofOptions_layers`: the theorem about layers.
-/

namespace Lockstep.Config

open Text

namespace Options

variable {α : Type}

/-! ## The monoid of options -/

theorem mergeMap_assoc (a b c : Option (OrderedMap α)) :
    mergeMap (mergeMap a b) c = mergeMap a (mergeMap b c) := by
  cases b <;> cases c <;> simp [mergeMap, OrderedMap.extend_assoc]

theorem mergeList_assoc (a b c : Option (List α)) :
    mergeList (mergeList a b) c = mergeList a (mergeList b c) := by
  cases b <;> cases c <;> simp [mergeList]

theorem orElse_assoc (a b c : Option α) : (c <|> (b <|> a)) = ((c <|> b) <|> a) := by
  cases c <;> rfl

theorem merge_assoc (a b c : Options) : (a.merge b).merge c = a.merge (b.merge c) := by
  simp only [merge, mergeMap_assoc, mergeList_assoc, orElse_assoc]

theorem merge_empty (o : Options) : o.merge empty = o := rfl

theorem empty_mergeMap (a : Option (OrderedMap α)) : mergeMap none a = a := by
  cases a <;> simp [mergeMap]

theorem empty_mergeList (a : Option (List α)) : mergeList none a = a := by
  cases a <;> simp [mergeList]

theorem orElse_none (a : Option α) : (a <|> none) = a := by
  cases a <;> rfl

theorem empty_merge (o : Options) : empty.merge o = o := by
  simp only [merge, empty, empty_mergeMap, empty_mergeList, orElse_none]

/-! ## What the layers set -/

/-- Layers on top of each other, the first at the bottom. -/
def merged (layers : List Options) : Options := layers.foldl merge empty

/-- What the last of the layers with that setting sets. -/
def lastSet (setting : Options → Option α) (layers : List Options) : Option α :=
  layers.reverse.findSome? setting

/-- If the upper of two layers counts, of any number of layers the last one does. -/
theorem lastSet_merged (setting : Options → Option α) (hempty : setting empty = none)
    (hmerge : ∀ a b, setting (a.merge b) = (setting b <|> setting a)) (layers : List Options) :
    setting (merged layers) = lastSet setting layers := by
  have hfold : ∀ base, setting (layers.foldl merge base) =
      (lastSet setting layers <|> setting base) := by
    induction layers with
    | nil => intro base; rfl
    | cons layer rest ih =>
      intro base
      have hcons : lastSet setting (layer :: rest) =
          (lastSet setting rest <|> setting layer) := by
        simp only [lastSet, List.reverse_cons, List.findSome?_append, List.findSome?_singleton,
          Option.or_eq_orElse, Option.orElse_eq_orElse]
      rw [List.foldl_cons, ih, hmerge, hcons, orElse_assoc]
  rw [merged, hfold, hempty, orElse_none]

theorem get?_mergeMap (base top : Option (OrderedMap α)) (key : String) :
    (mergeMap base top).bind (·.get? key) = (top.bind (·.get? key) <|> base.bind (·.get? key)) := by
  cases base <;> cases top <;> simp [mergeMap, OrderedMap.get?_extend]

theorem get?_getD (m : Option (OrderedMap α)) (key : String) :
    (m.getD ∅).get? key = m.bind (·.get? key) := by
  cases m <;> rfl

/-- The imports of all layers. -/
theorem extraImports_merged (layers : List Options) :
    (merged layers).extraImports.getD [] = layers.flatMap (·.extraImports.getD []) := by
  have hmerge (a b : Options) : (a.merge b).extraImports.getD [] =
      a.extraImports.getD [] ++ b.extraImports.getD [] := by
    cases hb : b.extraImports <;> simp [merge, mergeList, hb]
  have hfold : ∀ base : Options, (layers.foldl merge base).extraImports.getD [] =
      base.extraImports.getD [] ++ layers.flatMap (·.extraImports.getD []) := by
    induction layers with
    | nil => intro base; simp
    | cons layer rest ih =>
      intro base
      rw [List.foldl_cons, ih, hmerge, List.flatMap_cons, List.append_assoc]
  exact hfold empty

/-- The names in options: those at both sides of the entries of maps, and the imports. -/
def names (o : Options) : List String :=
  ((o.marks.getD ∅).entries.flatMap fun entry => entry.1 :: entry.2.toList) ++
    o.extraImports.getD [] ++
    ((o.genericNamespaces.getD ∅).entries.flatMap fun entry => [entry.1, entry.2]) ++
    ((o.implicitImports.getD ∅).entries.flatMap fun entry => [entry.1, entry.2])

end Options

namespace Settings

open Options

/-! ## The check -/

theorem seq_eq_ok {a b : Except Fault Unit} :
    (do a; b) = .ok () ↔ a = .ok () ∧ b = .ok () := by
  cases a with
  | error e => exact ⟨(nomatch ·), (nomatch ·.1)⟩
  | ok u => exact ⟨fun h => ⟨rfl, h⟩, fun h => h.2⟩

theorem forM_eq_ok {α : Type} {f : α → Except Fault Unit} {xs : List α} :
    xs.forM f = .ok () ↔ ∀ x ∈ xs, f x = .ok () := by
  induction xs with
  | nil => exact ⟨fun _ _ h => (nomatch h), fun _ => rfl⟩
  | cons x xs ih =>
    rw [List.forall_mem_cons, ← ih]
    exact seq_eq_ok

theorem option_forM_eq_ok {α : Type} {f : α → Except Fault Unit} {o : Option α} :
    o.forM f = .ok () ↔ ∀ x, o = some x → f x = .ok () := by
  cases o <;> simp [Option.forM, pure, Except.pure]

theorem checkName_eq_ok {option name : String} :
    checkName option name = .ok () ↔ isDottedName name = true := by
  simp [checkName]

theorem checkWidth_eq_ok {width : Nat} : checkWidth width = .ok () ↔ width ≤ maxIndentWidth := by
  simp [checkWidth]

theorem checkMark_eq_ok {entry : String × Option String} :
    checkMark entry = .ok () ↔ ∀ name ∈ entry.1 :: entry.2.toList, isDottedName name = true := by
  rw [checkMark, seq_eq_ok, option_forM_eq_ok, checkName_eq_ok, List.forall_mem_cons]
  simp only [checkName_eq_ok, Option.mem_toList]

theorem checkEntry_eq_ok {option : String} {entry : String × String} :
    checkEntry option entry = .ok () ↔
      ∀ name ∈ [entry.1, entry.2], isDottedName name = true := by
  rw [checkEntry, seq_eq_ok, checkName_eq_ok, checkName_eq_ok]
  simp

/-- The check of the entries of a map that may be left unset. -/
theorem entries_forM_eq_ok {α : Type} {f : String × α → Except Fault Unit}
    {m : Option (OrderedMap α)} :
    m.forM (·.entries.forM f) = .ok () ↔ ∀ entry ∈ (m.getD ∅).entries, f entry = .ok () := by
  cases m with
  | none => exact ⟨fun _ _ h => (nomatch h), fun _ => rfl⟩
  | some m => exact forM_eq_ok

/-- Options are accepted if the width is not too large and all names are dotted. -/
theorem check_eq_ok {o : Options} :
    check o = .ok () ↔
      o.indentWidth.getD defaultIndentWidth ≤ maxIndentWidth ∧
        ∀ name ∈ o.names, isDottedName name = true := by
  have hwidth : o.indentWidth.forM checkWidth = .ok () ↔
      o.indentWidth.getD defaultIndentWidth ≤ maxIndentWidth := by
    rw [option_forM_eq_ok]
    cases o.indentWidth with
    | none => simp [defaultIndentWidth, maxIndentWidth]
    | some width => simp [checkWidth_eq_ok]
  have hextra : o.extraImports.forM (·.forM (checkName "extraImports")) = .ok () ↔
      ∀ name ∈ o.extraImports.getD [], isDottedName name = true := by
    rw [option_forM_eq_ok]
    cases o.extraImports with
    | none => simp
    | some texts => simpa [checkName_eq_ok] using forM_eq_ok (f := checkName "extraImports")
  rw [check, seq_eq_ok, seq_eq_ok, seq_eq_ok, seq_eq_ok, hwidth, hextra, entries_forM_eq_ok,
    entries_forM_eq_ok, entries_forM_eq_ok]
  simp only [checkMark_eq_ok, checkEntry_eq_ok, names, List.forall_mem_append,
    List.forall_mem_flatMap, and_assoc]

theorem ofOptions_eq_ok {o : Options} {s : Settings} :
    ofOptions o = .ok s ↔ check o = .ok () ∧ s = resolve o := by
  unfold ofOptions
  cases check o with
  | error e => exact ⟨(nomatch ·), (nomatch ·.1)⟩
  | ok u => exact ⟨fun h => ⟨rfl, (Except.ok.inj h).symm⟩, fun h => congrArg _ h.2.symm⟩

/-! ## What is resolved -/

/-- Of equal texts the first stays. -/
theorem distinct_eq_eraseDups (texts : List String) : distinct texts = texts.eraseDups := by
  have hfold : ∀ seen : List String,
      texts.foldl (fun seen text => if seen.contains text then seen else seen ++ [text]) seen =
        seen ++ (texts.filter fun text => !seen.contains text).eraseDups := by
    induction texts with
    | nil => intro seen; simp
    | cons text rest ih =>
      intro seen
      rw [List.foldl_cons, ih]
      by_cases h : seen.contains text = true
      · rw [if_pos h, List.filter_cons_of_neg (by rw [h]; exact Bool.false_ne_true)]
      · have hrest : (rest.filter fun t => !(seen ++ [text]).contains t) =
            (rest.filter fun t => !seen.contains t).filter fun t => !t == text := by
          rw [List.filter_filter]
          refine List.filter_congr fun t _ => ?_
          rw [Bool.eq_iff_iff]
          simp [and_comm]
        rw [if_neg h, List.filter_cons_of_pos (by simpa using h), List.eraseDups_cons, hrest]
        simp
  have hall : (texts.filter fun text => !([] : List String).contains text) = texts :=
    List.filter_eq_self.2 fun _ _ => rfl
  exact (hfold []).trans (by rw [hall, List.nil_append])

/-- What the settings are that come from layers of options. -/
structure IsLayered (layers : List Options) (s : Settings) : Prop where
  target : s.target = (lastSet (·.target) layers).getD .csharp
  indentWidth : s.indentWidth = (lastSet (·.indentWidth) layers).getD defaultIndentWidth
  /-- Without a layer that has the annotation it is known only if it is dropped by default. -/
  mark : ∀ key, s.mark? key =
    ((lastSet (·.marks.bind (·.get? key)) layers).map markRule <|>
      if key ∈ suppressed then some .suppress else none)
  genericNamespace : ∀ package, s.genericNamespace package =
    (lastSet (·.genericNamespaces.bind (·.get? package)) layers).getD package
  implicitImport : ∀ key, s.implicitImport? key =
    lastSet (·.implicitImports.bind (·.get? key)) layers
  extraImports : s.extraImports = (layers.flatMap (·.extraImports.getD [])).eraseDups

theorem lookup_map_snd {α β : Type} (f : α → β) (entries : List (String × α)) (key : String) :
    (entries.map fun entry => (entry.1, f entry.2)).lookup key = (entries.lookup key).map f := by
  induction entries with
  | nil => rfl
  | cons entry rest ih =>
    rw [List.map_cons, List.lookup_cons, List.lookup_cons, ih]
    cases key == entry.1 <;> rfl

theorem lookup_map_const {α : Type} (value : α) (names : List String) (key : String) :
    (names.map (·, value)).lookup key = if key ∈ names then some value else none := by
  induction names with
  | nil => rfl
  | cons name rest ih =>
    rw [List.map_cons, List.lookup_cons, ih]
    by_cases h : key = name
    · simp [h]
    · simp [beq_false_of_ne h, h]

theorem mark?_resolve (o : Options) (key : String) :
    (resolve o).mark? key =
      ((o.marks.bind (·.get? key)).map markRule <|>
        if key ∈ suppressed then some .suppress else none) := by
  have hdefault : (ofTarget (o.target.getD .csharp)).marks.get? key =
      if key ∈ suppressed then some .suppress else none := by
    change (OrderedMap.putAll ∅ (suppressed.map (·, MarkRule.suppress))).get? key = _
    rw [OrderedMap.get?_putAll _ (by decide), lookup_map_const]
    split <;> rfl
  have hnodup : (((o.marks.getD ∅).entries.map fun entry =>
      (entry.1, markRule entry.2)).map (·.1)).Nodup := by
    rw [List.map_map]
    exact (o.marks.getD ∅).nodup
  change (OrderedMap.putAll _ ((o.marks.getD ∅).entries.map _)).get? key = _
  rw [OrderedMap.get?_putAll _ hnodup, lookup_map_snd, hdefault, ← get?_getD]
  rfl

theorem isLayered_resolve (layers : List Options) : IsLayered layers (resolve (merged layers)) where
  target := by
    rw [← lastSet_merged (·.target) rfl (fun _ _ => rfl) layers]
    rfl
  indentWidth := by
    rw [← lastSet_merged (·.indentWidth) rfl (fun _ _ => rfl) layers]
    rfl
  mark := fun key => by
    have hlast := lastSet_merged (fun o => o.marks.bind (·.get? key)) rfl
      (fun a b => get?_mergeMap a.marks b.marks key) layers
    rw [mark?_resolve, hlast]
  genericNamespace := fun package => by
    have hlast := lastSet_merged (fun o => o.genericNamespaces.bind (·.get? package)) rfl
      (fun a b => get?_mergeMap a.genericNamespaces b.genericNamespaces package) layers
    rw [← hlast, ← get?_getD]
    rfl
  implicitImport := fun key => by
    have hlast := lastSet_merged (fun o => o.implicitImports.bind (·.get? key)) rfl
      (fun a b => get?_mergeMap a.implicitImports b.implicitImports key) layers
    rw [← hlast, ← get?_getD]
    rfl
  extraImports := by rw [← extraImports_merged, ← distinct_eq_eraseDups]; rfl

/-- Layers of options can be merged in any grouping. Settings come from them if the width that
counts is not too large and all names of the merged options are dotted, and then they are what the
last layers with a setting set, with the imports of all layers. -/
theorem ofOptions_layers :
    (∀ a b c : Options, (a.merge b).merge c = a.merge (b.merge c)) ∧
      (∀ o : Options, Options.empty.merge o = o ∧ o.merge Options.empty = o) ∧
      ∀ layers : List Options,
        ((∃ s, ofOptions (merged layers) = .ok s) ↔
          (lastSet (·.indentWidth) layers).getD defaultIndentWidth ≤ maxIndentWidth ∧
            ∀ name ∈ (merged layers).names, isDottedName name = true) ∧
        ∀ s, ofOptions (merged layers) = .ok s → s.IsLayered layers := by
  refine ⟨merge_assoc, fun o => ⟨empty_merge o, merge_empty o⟩, fun layers => ⟨?_, ?_⟩⟩
  · have hwidth := lastSet_merged (·.indentWidth) rfl (fun _ _ => rfl) layers
    rw [← hwidth, ← check_eq_ok]
    constructor
    · rintro ⟨s, hs⟩
      exact (ofOptions_eq_ok.1 hs).1
    · intro h
      exact ⟨_, ofOptions_eq_ok.2 ⟨h, rfl⟩⟩
  · intro s hs
    rw [(ofOptions_eq_ok.1 hs).2]
    exact isLayered_resolve layers

/-- Two layers: the upper one replaces the target and the rule for one annotation, keeps the width
and adds an import that is there already. -/
def sampleLayers : List Options :=
  [{ Options.empty with
      target := some .cpp
      indentWidth := some 2
      marks := some (.ofList [("a.Mark", some "Attr"), ("a.Gone", none)])
      extraImports := some ["System", "a.b"] },
    { Options.empty with
      target := some .swift
      marks := some (.ofList [("a.Mark", none)])
      extraImports := some ["a.b", "c"]
      genericNamespaces := some (.ofList [("java.util", "System.Collections")]) }]

theorem ofOptions_sampleLayers :
    ∃ s, ofOptions (merged sampleLayers) = .ok s ∧ s.target = .swift ∧ s.indentWidth = 2 ∧
      s.mark? "a.Mark" = some .suppress ∧ s.mark? "java.lang.Override" = some .suppress ∧
      s.mark? "b.Mark" = none ∧ s.genericNamespace "java.util" = "System.Collections" ∧
      s.genericNamespace "java.io" = "java.io" ∧ s.extraImports = ["System", "a.b", "c"] := by
  obtain ⟨hok, hlayered⟩ := ofOptions_layers.2.2 sampleLayers
  obtain ⟨s, hs⟩ := hok.2 ⟨by decide +kernel, by decide +kernel⟩
  have h := hlayered s hs
  exact ⟨s, hs, h.target, h.indentWidth, h.mark _, h.mark _, h.mark _, h.genericNamespace _,
    h.genericNamespace _, h.extraImports.trans (by decide +kernel)⟩

end Settings

end Lockstep.Config
