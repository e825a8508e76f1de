import Lockstep.Batch.Basic
import Lockstep.Proofs.FailingSink
import Mathlib.Data.List.Nodup

/-!
# The order of a batch

No file of a batch has a say in what becomes of another. The outputs are those that the files have
alone, in their order, and the diagnostics are those that they have alone, sorted. The sort is by
file and offset only (`Diagnostic.le_antisymm`), so that two orders of the same diagnostics can
differ where two of them are at one place, and nowhere else (`Diagnostic.sort_eq_of_perm`). Since
the text of a file is always accepted, each diagnostic of a batch is at a place
(`Batch.exists_span_of_mem`), and none is taken for one at offset zero. The main statement is
`Batch.renderFiles_each`.
-/

namespace Lockstep

namespace Diagnostic

variable {a b c : Diagnostic}

/-! ## The order of diagnostics -/

/-- What diagnostics are sorted by. -/
def place (d : Diagnostic) : Option String × Nat := (d.file, d.start)

theorem fileLe_refl (f : Option String) : fileLe f f = true := by
  cases f with
  | none => rfl
  | some f => exact decide_eq_true (String.le_refl f)

theorem fileLe_total (f g : Option String) : fileLe f g = true ∨ fileLe g f = true := by
  match f, g with
  | none, _ => exact .inl rfl
  | some f, none => exact .inr rfl
  | some f, some g => exact (String.le_total f g).imp decide_eq_true decide_eq_true

theorem fileLe_trans {f g h : Option String} (hfg : fileLe f g = true) (hgh : fileLe g h = true) :
    fileLe f h = true := by
  match f, g, h with
  | none, _, _ => rfl
  | some f, some g, some h =>
    exact decide_eq_true (String.le_trans (of_decide_eq_true hfg) (of_decide_eq_true hgh))

theorem fileLe_antisymm {f g : Option String} (hfg : fileLe f g = true) (hgf : fileLe g f = true) :
    f = g := by
  match f, g with
  | none, none => rfl
  | some f, some g =>
    exact congrArg some (String.le_antisymm (of_decide_eq_true hfg) (of_decide_eq_true hgf))

theorem le_iff : le a b = true ↔
    a.file = b.file ∧ a.start ≤ b.start ∨ a.file ≠ b.file ∧ fileLe a.file b.file = true := by
  unfold le
  by_cases h : a.file = b.file <;> simp [h]

theorem fileLe_of_le (h : le a b = true) : fileLe a.file b.file = true := by
  obtain ⟨hfile, -⟩ | ⟨-, h⟩ := le_iff.1 h
  · rw [hfile]
    exact fileLe_refl _
  · exact h

theorem le_total (a b : Diagnostic) : (le a b || le b a) = true := by
  rw [Bool.or_eq_true, le_iff, le_iff]
  by_cases hfile : a.file = b.file
  · exact (Nat.le_total a.start b.start).imp (.inl ⟨hfile, ·⟩) (.inl ⟨hfile.symm, ·⟩)
  · exact (fileLe_total a.file b.file).imp (.inr ⟨hfile, ·⟩) (.inr ⟨Ne.symm hfile, ·⟩)

theorem le_trans (hab : le a b = true) (hbc : le b c = true) : le a c = true := by
  have hfiles := fileLe_trans (fileLe_of_le hab) (fileLe_of_le hbc)
  by_cases hfile : a.file = c.file
  · -- the file in between is the same one, so that offsets decide both times
    have hb : a.file = b.file :=
      fileLe_antisymm (fileLe_of_le hab) (hfile ▸ fileLe_of_le hbc)
    obtain ⟨-, hab⟩ | ⟨hne, -⟩ := le_iff.1 hab
    · obtain ⟨-, hbc⟩ | ⟨hne, -⟩ := le_iff.1 hbc
      · exact le_iff.2 (.inl ⟨hfile, Nat.le_trans hab hbc⟩)
      · exact absurd (hb.symm.trans hfile) hne
    · exact absurd hb hne
  · exact le_iff.2 (.inr ⟨hfile, hfiles⟩)

/-- Diagnostics that may be sorted both ways are at one place. -/
theorem le_antisymm (hab : le a b = true) (hba : le b a = true) : a.place = b.place := by
  have hfile : a.file = b.file := fileLe_antisymm (fileLe_of_le hab) (fileLe_of_le hba)
  obtain ⟨-, hab⟩ | ⟨hne, -⟩ := le_iff.1 hab
  · obtain ⟨-, hba⟩ | ⟨hne, -⟩ := le_iff.1 hba
    · exact Prod.ext hfile (Nat.le_antisymm hab hba)
    · exact absurd hfile.symm hne
  · exact absurd hfile hne

theorem pairwise_sort (ds : List Diagnostic) : (sort ds).Pairwise (le · · = true) :=
  @List.pairwise_mergeSort _ le (fun _ _ _ => le_trans) le_total ds

theorem sort_perm (ds : List Diagnostic) : (sort ds).Perm ds := List.mergeSort_perm ds le

/-- Of diagnostics at different places there is one order only. -/
theorem sort_eq_of_perm {ds es : List Diagnostic} (h : ds.Perm es)
    (hplaces : (ds.map place).Nodup) : sort ds = sort es := by
  refine List.Perm.eq_of_pairwise (fun a b ha hb hab hba => ?_) (pairwise_sort ds)
    (pairwise_sort es) ((sort_perm ds).trans (h.trans (sort_perm es).symm))
  have ha : a ∈ ds := (sort_perm ds).mem_iff.1 ha
  have hb : b ∈ ds := h.mem_iff.2 ((sort_perm es).mem_iff.1 hb)
  exact List.inj_on_of_nodup_map hplaces ha hb (le_antisymm hab hba)

/-- The diagnostic of a file is in one of an earlier name, or in the same file no further on. -/
def NotAfter (a b : Diagnostic) : Prop :=
  ∃ (f g : String) (x y : Text.Span), (a.file = some f ∧ a.span = some x) ∧
    (b.file = some g ∧ b.span = some y) ∧ (f < g ∨ f = g ∧ x.start ≤ y.start)

end Diagnostic

namespace Batch

open Config Diagnostic Render

variable (s : Settings)

/-! ## Files alone -/

/-- What becomes of a file alone. -/
def SourceFile.outcome (file : SourceFile) : Outcome := renderUnit s file.text true file.tree

/-- The outputs of files alone. -/
def ownOutputs (files : List SourceFile) : List OutputFile :=
  (files.filter fun file => (file.outcome s).error.isNone).map fun file =>
    ⟨file.name, (file.outcome s).received⟩

/-- The diagnostics of files alone. -/
def ownDiagnostics (files : List SourceFile) : List Diagnostic :=
  files.filterMap fun file => (file.outcome s).error.map (·.toDiagnostic file.name)

/-- The names of the files that cannot be rendered, each with the offset of its error. -/
def failurePlaces (files : List SourceFile) : List (String × Option Nat) :=
  files.filterMap fun file =>
    (file.outcome s).error.map fun e => (file.name, e.span?.map (·.start))

variable {s} {file : SourceFile} {files : List SourceFile}

theorem SourceFile.render_of_none (h : (file.outcome s).error = none) :
    file.render s = .ok ⟨file.name, (file.outcome s).received⟩ := by
  rw [outcome] at h
  simp only [render, h, outcome]

theorem SourceFile.render_of_some {e : RenderError} (h : (file.outcome s).error = some e) :
    file.render s = .error (e.toDiagnostic file.name) := by
  rw [outcome] at h
  simp only [render, h]

/-- The text of a file is accepted, so that a file that fails does so somewhere. -/
theorem SourceFile.exists_span {e : RenderError} (h : (file.outcome s).error = some e) :
    ∃ span, e.span? = some span := by
  have hmade : Made True (Tree.Node.render s (.unit file.tree)) :=
    Tree.Node.render_made s _ fun _ => trivial
  have haccepts := (hmade.reported file.text).accepts
  cases e with
  | unsupported | desync | missingBinding => exact ⟨_, rfl⟩
  | output => exact absurd h haccepts

theorem exists_span_of_mem {d : Diagnostic} (h : d ∈ ownDiagnostics s files) :
    ∃ f span, d.file = some f ∧ d.span = some span := by
  obtain ⟨file, -, hd⟩ := List.mem_filterMap.1 h
  obtain ⟨e, he, rfl⟩ := Option.map_eq_some_iff.1 hd
  obtain ⟨span, hspan⟩ := SourceFile.exists_span he
  exact ⟨file.name, span, rfl, hspan⟩

/-! ## The batch -/

theorem renderFiles_files (files : List SourceFile) :
    (renderFiles s files).files = ownOutputs s files := by
  simp only [renderFiles, ownOutputs]
  induction files with
  | nil => rfl
  | cons file files ih =>
    cases h : (file.outcome s).error with
    | none => simpa [file.render_of_none h, h, output?] using ih
    | some e => simpa [file.render_of_some h, h, List.filterMap_cons, output?] using ih

theorem renderFiles_diagnostics (files : List SourceFile) :
    (renderFiles s files).diagnostics = sort (ownDiagnostics s files) := by
  simp only [renderFiles, ownDiagnostics]
  congr 1
  induction files with
  | nil => rfl
  | cons file files ih =>
    cases h : (file.outcome s).error with
    | none => simpa [file.render_of_none h, h, List.filterMap_cons, diagnostic?] using ih
    | some e => simpa [file.render_of_some h, h, diagnostic?] using ih

theorem length_own (files : List SourceFile) :
    (ownOutputs s files).length + (ownDiagnostics s files).length = files.length := by
  induction files with
  | nil => rfl
  | cons file files ih =>
    simp only [ownOutputs, ownDiagnostics, List.length_map] at ih ⊢
    cases h : (file.outcome s).error with
    | none => simp [h]; omega
    | some e => simp [h]; omega

theorem ownOutputs_perm {files' : List SourceFile} (h : files.Perm files') :
    (ownOutputs s files).Perm (ownOutputs s files') := (h.filter _).map _

theorem ownDiagnostics_perm {files' : List SourceFile} (h : files.Perm files') :
    (ownDiagnostics s files).Perm (ownDiagnostics s files') := h.filterMap _

/-- Files that fail at different places have diagnostics that are sorted apart. -/
theorem nodup_places (h : (failurePlaces s files).Nodup) :
    ((ownDiagnostics s files).map place).Nodup := by
  have hplaces : failurePlaces s files =
      (ownDiagnostics s files).map fun d => (d.file.getD "", d.span.map (·.start)) := by
    simp only [failurePlaces, ownDiagnostics, List.map_filterMap, Option.map_map]
    rfl
  rw [hplaces] at h
  refine (List.Nodup.of_map _ h).map_on fun a ha b hb hab => ?_
  obtain ⟨f, x, hf, hx⟩ := exists_span_of_mem ha
  obtain ⟨g, y, hg, hy⟩ := exists_span_of_mem hb
  refine List.inj_on_of_nodup_map h ha hb ?_
  simp only [place, start, hf, hg, hx, hy, Prod.mk.injEq] at hab ⊢
  exact ⟨congrArg (Option.getD · "") hab.1, congrArg some hab.2⟩

theorem pairwise_diagnostics (files : List SourceFile) :
    (renderFiles s files).diagnostics.Pairwise NotAfter := by
  rw [renderFiles_diagnostics]
  refine (pairwise_sort _).imp_of_mem fun {a b} ha hb hab => ?_
  obtain ⟨f, x, hf, hx⟩ := exists_span_of_mem ((sort_perm _).mem_iff.1 ha)
  obtain ⟨g, y, hg, hy⟩ := exists_span_of_mem ((sort_perm _).mem_iff.1 hb)
  refine ⟨f, g, x, y, ⟨hf, hx⟩, ⟨hg, hy⟩, ?_⟩
  rw [le_iff, hf, hg] at hab
  obtain ⟨hfg, hxy⟩ | ⟨hne, hfg⟩ := hab
  · simp only [start, hx, hy] at hxy
    exact .inr ⟨Option.some.inj hfg, hxy⟩
  · have hfg : f ≤ g := of_decide_eq_true hfg
    by_cases hlt : f < g
    · exact .inl hlt
    · exact absurd (congrArg some (String.le_antisymm hfg (String.not_lt.1 hlt))) hne

/-- **A batch is its files alone, whatever their order.** The outputs are those of the files that
can be rendered, in their order and with the text that each has alone; the diagnostics are one for
each of the others, by name and then by offset. A permutation of the files permutes the outputs with
them, and it leaves the diagnostics as they are if no two files of one name fail at one offset. -/
theorem renderFiles_each (s : Settings) (files : List SourceFile) :
    (renderFiles s files).files = ownOutputs s files ∧
    (renderFiles s files).diagnostics.Perm (ownDiagnostics s files) ∧
    (renderFiles s files).files.length + (renderFiles s files).diagnostics.length = files.length ∧
    (renderFiles s files).diagnostics.Pairwise NotAfter ∧
    ∀ files' : List SourceFile, files.Perm files' → (failurePlaces s files).Nodup →
      (renderFiles s files').files = ownOutputs s files' ∧
      (renderFiles s files).files.Perm (renderFiles s files').files ∧
      (renderFiles s files').diagnostics = (renderFiles s files).diagnostics := by
  have hperm : (renderFiles s files).diagnostics.Perm (ownDiagnostics s files) := by
    rw [renderFiles_diagnostics]
    exact sort_perm _
  refine ⟨renderFiles_files files, hperm, ?_, pairwise_diagnostics files,
    fun files' h hplaces => ⟨renderFiles_files files', ?_, ?_⟩⟩
  · rw [renderFiles_files, hperm.length_eq, length_own]
  · rw [renderFiles_files, renderFiles_files]
    exact ownOutputs_perm h
  · rw [renderFiles_diagnostics, renderFiles_diagnostics]
    exact (sort_eq_of_perm (ownDiagnostics_perm h) (nodup_places hplaces)).symm

/-- Two files that have no type, of which the one that is named later comes first, and a class. -/
theorem renderFiles_each_three :
    let s : Settings := .ofTarget .csharp
    let later : SourceFile := ⟨"C.java", "", ⟨⟨0, 0⟩, none, [], []⟩⟩
    let rendered : SourceFile := ⟨"A.java", "class A \x7b \x7d",
      ⟨⟨0, 11⟩, none, [], [⟨⟨⟨0, 11⟩, .class, [], ⟨⟨6, 7⟩, "A"⟩, [], none, []⟩, []⟩]⟩⟩
    let earlier : SourceFile := ⟨"B.java", "", ⟨⟨0, 0⟩, none, [], []⟩⟩
    [later, rendered, earlier].Perm [rendered, earlier, later] ∧
    (failurePlaces s [later, rendered, earlier]).Nodup ∧
    (renderFiles s [rendered, earlier, later]).diagnostics =
      (renderFiles s [later, rendered, earlier]).diagnostics := by
  intro s later rendered earlier
  have hperm : ([later] ++ [rendered, earlier]).Perm ([rendered, earlier] ++ [later]) :=
    List.perm_append_comm
  have hplaces : (failurePlaces s [later, rendered, earlier]).Nodup := by decide +kernel
  exact ⟨hperm, hplaces, ((renderFiles_each s _).2.2.2.2 _ hperm hplaces).2.2⟩

end Batch

end Lockstep
