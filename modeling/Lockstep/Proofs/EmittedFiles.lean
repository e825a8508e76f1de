import Lockstep.Proofs.BatchOrder
import Lockstep.Proofs.DiskWrites
import Mathlib.Data.List.Pairwise

/-!
# Outputs that stay

Outputs are written one after another, and a path that leads to the place of an earlier output
overwrites it. All directories stay where they are, so that such a path has the name of the earlier
one and its directory, and the sources of the two have names that are merged into one. If sources
with merged names are one file of the disk (`Apart`), then what overwrites an output is the same
text, and each output can be read as it was written. The main statement is `outputs_apart`.

- `Keeping`: steps that leave all directories where they are.
- `Written`: outputs that have been written, and the disks before and after them.
- `loadFiles_spec`, `emit_course`: what loading and emitting do.
- `Written.read`: each output that has been written can be read.
-/

namespace Lockstep.Batch

open Config Render Lockstep.Path

variable {α β : Type} {d d' d₁ : Disk} {t : Target} {outDir : Option String}

/-! ## Steps that keep all directories -/

/-- Whatever the disk, each of its directories stays. -/
def Keeping (x : StateM Disk α) : Prop := ∀ d : Disk, d.Keeps (x.run d).2

theorem keeping_pure (a : α) : Keeping (pure a) := fun d => .refl d

theorem Keeping.bind {x : StateM Disk α} {f : α → StateM Disk β} (hx : Keeping x)
    (hf : ∀ a, Keeping (f a)) : Keeping (x >>= f) :=
  fun d => (hx d).trans (hf (x.run d).1 (x.run d).2)

theorem keeping_makeDir (path : String) : Keeping (FileStore.makeDir path) := by
  intro d
  change d.Keeps (changeDisk (·.makeDir path) d).2
  unfold changeDisk
  split
  · next d' hmake =>
    unfold Disk.makeDir at hmake
    obtain ⟨⟨base, name⟩, -, hmake⟩ := bind_eq_ok.1 hmake
    simp only at hmake
    split at hmake
    · cases hmake
    · obtain ⟨found, -, hmake⟩ := bind_eq_ok.1 hmake
      split at hmake
      · cases hmake
      · cases hmake
        exact Disk.keeps_put (.inl rfl)
  · exact .refl d

theorem keeping_isDirectory (path : String) : Keeping (FileStore.isDirectory path) :=
  fun d => .refl d

theorem keeping_ensureDir (path : String) :
    Keeping (FileStore.ensureDir path : StateM Disk (Except FileError Unit)) := by
  refine (keeping_makeDir path).bind fun made => ?_
  cases made with
  | ok => exact keeping_pure _
  | error e => exact (keeping_isDirectory path).bind fun found => keeping_pure _

theorem keeping_ensureDirs (paths : List String) :
    Keeping (FileStore.ensureDirs paths : StateM Disk (Except FileError Unit)) := by
  induction paths with
  | nil => exact keeping_pure _
  | cons path outer ih =>
    refine (keeping_ensureDir path).bind fun made => ?_
    split
    · refine ih.bind fun madeOuter => ?_
      split
      · exact keeping_pure _
      · exact keeping_ensureDir path
    · exact keeping_pure _

theorem keeping_makeDirs (path : String) :
    Keeping (FileStore.makeDirs path : StateM Disk (Except FileError Unit)) := by
  unfold FileStore.makeDirs
  split
  · exact keeping_pure _
  · exact keeping_ensureDirs _

/-! ## Steps that may fail -/

/-- What comes of steps on a disk, and the disk after them. -/
def runOn (x : ExceptT BatchError (StateM Disk) α) (d : Disk) : Except BatchError α × Disk :=
  x.run.run d

theorem runOn_lift_bind (x : StateM Disk α) (f : α → ExceptT BatchError (StateM Disk) β)
    (d : Disk) : runOn (liftM x >>= f) d = runOn (f (x.run d).1) (x.run d).2 := rfl

theorem runOn_bind (x : ExceptT BatchError (StateM Disk) α)
    (f : α → ExceptT BatchError (StateM Disk) β) (d : Disk) :
    runOn (x >>= f) d =
      match (runOn x d).1 with
      | .ok a => runOn (f a) (runOn x d).2
      | .error e => (.error e, (runOn x d).2) := by
  unfold runOn
  rw [ExceptT.run_bind, StateT.run_bind]
  generalize StateT.run x.run d = outcome
  obtain ⟨made, d⟩ := outcome
  cases made <;> rfl

/-! ## Loading -/

/-- A source as it is on a disk. -/
def SourceFile.On (file : SourceFile) (d : Disk) : Prop :=
  d.read file.name = .ok file.text ∧
    ∃ tree, d.read (treePath file.name) = .ok tree ∧ treeOfText? tree = some file.tree

theorem runOn_readFile (path : String) (d : Disk) :
    runOn (readFile path) d = ((d.read path).mapError (.read path), d) := by
  unfold readFile
  have hread : (FileStore.read path : StateM Disk _).run d = (d.read path, d) := rfl
  rw [runOn_lift_bind, hread]
  cases d.read path <;> rfl

theorem runOn_loadFile (path : String) (d : Disk) :
    (runOn (loadFile path) d).2 = d ∧
      ∀ file, (runOn (loadFile path) d).1 = .ok file → file.name = path ∧ file.On d := by
  unfold loadFile
  rw [runOn_bind, runOn_readFile]
  cases htext : d.read path with
  | error e => exact ⟨rfl, nofun⟩
  | ok text =>
    simp only [Except.mapError]
    rw [runOn_bind, runOn_readFile]
    cases htree : d.read (treePath path) with
    | error e => exact ⟨rfl, nofun⟩
    | ok tree =>
      simp only [Except.mapError]
      cases hunit : treeOfText? tree with
      | none => exact ⟨rfl, nofun⟩
      | some unit =>
        refine ⟨rfl, ?_⟩
        intro file hfile
        cases hfile
        exact ⟨rfl, htext, tree, htree, hunit⟩

theorem loadFiles_cons (path : String) (paths : List String) (d : Disk) :
    (loadFiles (path :: paths) : StateM Disk _).run d =
      match runOn (loadFile path) d with
      | (.error e, d₁) => (([], some e), d₁)
      | (.ok file, d₁) =>
        let rest := (loadFiles paths : StateM Disk _).run d₁
        ((file :: rest.1.1, rest.1.2), rest.2) := by
  rw [loadFiles, StateT.run_bind]
  have hload : (loadFile path : ExceptT BatchError (StateM Disk) SourceFile).run.run d =
    runOn (loadFile path) d := rfl
  rw [hload]
  generalize runOn (loadFile path) d = outcome
  obtain ⟨made, d₁⟩ := outcome
  cases made <;> rfl

/-- Loading takes sources as they are on the disk, and leaves the disk as it is. -/
theorem loadFiles_spec (paths : List String) (d : Disk) :
    ((loadFiles paths : StateM Disk _).run d).2 = d ∧
      ∀ file ∈ ((loadFiles paths : StateM Disk _).run d).1.1, file.name ∈ paths ∧ file.On d := by
  induction paths with
  | nil => exact ⟨rfl, nofun⟩
  | cons path paths ih =>
    obtain ⟨hdisk, hfile⟩ := runOn_loadFile path d
    rw [loadFiles_cons]
    generalize runOn (loadFile path) d = outcome at hdisk hfile
    obtain ⟨made, d₁⟩ := outcome
    simp only at hdisk hfile
    subst hdisk
    cases made with
    | error e => exact ⟨rfl, nofun⟩
    | ok first =>
      obtain ⟨hname, hon⟩ := hfile first rfl
      refine ⟨ih.1, fun file hmem => ?_⟩
      rcases List.mem_cons.1 hmem with rfl | hmem
      · exact ⟨hname ▸ List.mem_cons_self, hon⟩
      · exact ⟨List.mem_cons_of_mem _ (ih.2 file hmem).1, (ih.2 file hmem).2⟩

/-! ## Writing -/

/-- Outputs that have been written one after another. -/
inductive Written (t : Target) (outDir : Option String) : Disk → List OutputFile → Disk → Prop where
  | nil (d : Disk) : Written t outDir d [] d
  | cons {file : OutputFile} {files : List OutputFile} {d d₁ d' : Disk} :
    d.write (outputPath t outDir file.name) file.text = .ok d₁ → Written t outDir d₁ files d' →
    Written t outDir d (file :: files) d'

/-- How writing outputs ends: after the last one, or at the first that the disk does not take. -/
inductive EmitsTo (t : Target) (outDir : Option String) (d : Disk) (files : List OutputFile) :
    Except BatchError (List String) × Disk → List OutputFile → Prop where
  | all {d' : Disk} : Written t outDir d files d' →
    EmitsTo t outDir d files (.ok (files.map fun file => outputPath t outDir file.name), d') files
  | upTo {done rest : List OutputFile} {file : OutputFile} {d' : Disk} {e : FileError} :
    files = done ++ file :: rest → Written t outDir d done d' →
    d'.write (outputPath t outDir file.name) file.text = .error e →
    EmitsTo t outDir d files (.error (.write (outputPath t outDir file.name) e), d') done

theorem runOn_emitFiles_cons (t : Target) (outDir : Option String) (file : OutputFile)
    (files : List OutputFile) (d : Disk) :
    runOn (emitFiles t outDir (file :: files)) d =
      match d.write (outputPath t outDir file.name) file.text with
      | .error e => (.error (.write (outputPath t outDir file.name) e), d)
      | .ok d₁ =>
        match runOn (emitFiles t outDir files) d₁ with
        | (.ok paths, d') => (.ok (outputPath t outDir file.name :: paths), d')
        | (.error e, d') => (.error e, d') := by
  rw [emitFiles, runOn_lift_bind]
  have hwrite : (FileStore.write (outputPath t outDir file.name) file.text : StateM Disk _).run d =
      changeDisk (·.write (outputPath t outDir file.name) file.text) d := rfl
  rw [hwrite, changeDisk]
  cases d.write (outputPath t outDir file.name) file.text with
  | error e => rfl
  | ok d₁ =>
    simp only
    rw [runOn_bind]
    generalize runOn (emitFiles t outDir files) d₁ = outcome
    obtain ⟨made, d'⟩ := outcome
    cases made <;> rfl

theorem emitFiles_course (t : Target) (outDir : Option String) (files : List OutputFile)
    (d : Disk) : ∃ done, EmitsTo t outDir d files (runOn (emitFiles t outDir files) d) done := by
  induction files generalizing d with
  | nil => exact ⟨[], .all (.nil d)⟩
  | cons file files ih =>
    rw [runOn_emitFiles_cons]
    cases hwrite : d.write (outputPath t outDir file.name) file.text with
    | error e => exact ⟨[], .upTo rfl (.nil d) hwrite⟩
    | ok d₁ =>
      obtain ⟨done, hdone⟩ := ih d₁
      simp only
      generalize runOn (emitFiles t outDir files) d₁ = outcome at hdone
      cases hdone with
      | all hwritten => exact ⟨_, .all (.cons hwrite hwritten)⟩
      | upTo hfiles hwritten hfail =>
        exact ⟨_, .upTo (congrArg (file :: ·) hfiles) (.cons hwrite hwritten) hfail⟩

/-- An output that has been written is at the end of its path, and nothing else has changed. -/
theorem write_output {file : OutputFile} {dir stem : List Char}
    (h : Splits file.name dir (stem ++ javaEnding))
    (hwrite : d.write (outputPath t outDir file.name) file.text = .ok d₁) :
    stem ≠ ['.'] ∧ d.Keeps d₁ ∧ ∃ place, d.resolve (outputPath t outDir file.name) = .ok place ∧
      ∀ other, d₁.at? other = if other = place then some (.file file.text) else d.at? other := by
  have hout := h.outputPath t outDir
  obtain ⟨base, -, hup, hresolve, hfree, rfl⟩ := Disk.write_eq_ok hout hwrite
  refine ⟨?_, Disk.keeps_put (.inr hfree), _, hresolve, ?_⟩
  · rintro rfl
    exact hup rfl
  · intro other
    exact Disk.at?_put (Disk.isOutside_name hout hup base) d other _

theorem Written.keeps {files : List OutputFile} (h : Written t outDir d files d')
    (hjava : ∀ file ∈ files, IsJava file.name) : d.Keeps d' := by
  induction h with
  | nil d => exact .refl d
  | cons hwrite _ ih =>
    obtain ⟨dir, stem, hsplits⟩ := (hjava _ List.mem_cons_self).splits
    obtain ⟨-, hkeeps, -⟩ := write_output hsplits hwrite
    exact hkeeps.trans (ih fun file hmem => hjava file (List.mem_cons_of_mem _ hmem))

/-- What is at a place stays there, or gives way to an output with a path to that place. -/
theorem Written.at? {files : List OutputFile} (h : Written t outDir d files d')
    (hjava : ∀ file ∈ files, IsJava file.name) {place : Place} {text : String}
    (hat : d.at? place = some (.file text)) :
    d'.at? place = some (.file text) ∨ ∃ file ∈ files,
      d'.resolve (outputPath t outDir file.name) = .ok place ∧
      d'.at? place = some (.file file.text) := by
  induction h generalizing text with
  | nil d => exact .inl hat
  | @cons file files d d₁ d' hwrite hwritten ih =>
    obtain ⟨dir, stem, hsplits⟩ := (hjava _ List.mem_cons_self).splits
    obtain ⟨-, -, written, hresolve, hchange⟩ := write_output hsplits hwrite
    have hrest : ∀ file ∈ files, IsJava file.name :=
      fun file hmem => hjava file (List.mem_cons_of_mem _ hmem)
    by_cases hplace : place = written
    · subst hplace
      have hat₁ : d₁.at? place = some (.file file.text) := by rw [hchange, if_pos rfl]
      rcases ih hrest hat₁ with hstays | ⟨later, hmem, hlater⟩
      · have hkeeps := (Written.cons hwrite hwritten).keeps hjava
        exact .inr ⟨file, List.mem_cons_self, hkeeps.resolve hresolve, hstays⟩
      · exact .inr ⟨later, List.mem_cons_of_mem _ hmem, hlater⟩
    · have hat₁ : d₁.at? place = some (.file text) := by rw [hchange, if_neg hplace, hat]
      rcases ih hrest hat₁ with hstays | ⟨later, hmem, hlater⟩
      · exact .inl hstays
      · exact .inr ⟨later, List.mem_cons_of_mem _ hmem, hlater⟩

/-- At the end of the path of an output there is an output with a path to that place. -/
theorem Written.output {files : List OutputFile} (h : Written t outDir d files d')
    (hjava : ∀ file ∈ files, IsJava file.name) {file : OutputFile} (hmem : file ∈ files) :
    ∃ place, d'.resolve (outputPath t outDir file.name) = .ok place ∧ ∃ last ∈ files,
      d'.resolve (outputPath t outDir last.name) = .ok place ∧
      d'.at? place = some (.file last.text) := by
  induction h with
  | nil d => cases hmem
  | @cons first files d d₁ d' hwrite hwritten ih =>
    have hrest : ∀ file ∈ files, IsJava file.name :=
      fun file hmem => hjava file (List.mem_cons_of_mem _ hmem)
    rcases List.mem_cons.1 hmem with rfl | hmem
    · obtain ⟨dir, stem, hsplits⟩ := (hjava _ List.mem_cons_self).splits
      obtain ⟨-, -, place, hresolve, hchange⟩ := write_output hsplits hwrite
      have hkeeps := (Written.cons hwrite hwritten).keeps hjava
      have hat₁ : d₁.at? place = some (.file file.text) := by rw [hchange, if_pos rfl]
      refine ⟨place, hkeeps.resolve hresolve, ?_⟩
      rcases hwritten.at? hrest hat₁ with hstays | ⟨later, hlater, hplace⟩
      · exact ⟨file, List.mem_cons_self, hkeeps.resolve hresolve, hstays⟩
      · exact ⟨later, List.mem_cons_of_mem _ hlater, hplace⟩
    · obtain ⟨place, hresolve, last, hlast, hplace⟩ := ih hrest hmem
      exact ⟨place, hresolve, last, List.mem_cons_of_mem _ hlast, hplace⟩

theorem Written.stem_ne {files : List OutputFile} (h : Written t outDir d files d')
    {file : OutputFile} (hmem : file ∈ files) {dir stem : List Char}
    (hsplits : Splits file.name dir (stem ++ javaEnding)) : stem ≠ ['.'] := by
  induction h with
  | nil d => cases hmem
  | cons hwrite _ ih =>
    rcases List.mem_cons.1 hmem with rfl | hmem
    · exact (write_output hsplits hwrite).1
    · exact ih hmem

/-! ## Sources with one output -/

variable {a b : SourceFile}

theorem ofList_ne_up {name : List Char} (h : 2 < name.length) : String.ofList name ≠ ".." := by
  intro heq
  have hname : name = ['.', '.'] := String.ofList_injective heq
  rw [hname] at h
  exact Nat.lt_irrefl 2 h

theorem ofList_java_ne_up (stem : List Char) : String.ofList (stem ++ javaEnding) ≠ ".." := by
  apply ofList_ne_up
  rw [List.length_append]
  exact Nat.lt_add_left _ (by decide)

theorem treePath_splits {path : String} {dir name : List Char} (h : Splits path dir name) :
    Splits (treePath path) dir (name ++ ".ast.json".toList) := by
  refine .ofEnding ?_ h.dir h.slash (by decide) (by decide)
  rw [treePath, String.toList_append, h.text, List.append_assoc]

theorem ofList_tree_ne_up (name : List Char) :
    String.ofList (name ++ ".ast.json".toList) ≠ ".." := by
  apply ofList_ne_up
  rw [List.length_append]
  exact Nat.lt_add_left _ (by decide)

/-- Names at one place are one name in one directory. -/
theorem name_inj {base base' : Place} {name name' : List Char}
    (h : base ++ [String.ofList name] = base' ++ [String.ofList name']) :
    base = base' ∧ name = name' := by
  obtain ⟨hbase, hname⟩ := List.append_inj' h rfl
  exact ⟨hbase, String.ofList_injective (List.singleton_inj.1 hname)⟩

/-- Sources at one place have one text and one tree. -/
theorem SourceFile.On.same (ha : a.On d) (hb : b.On d) (hjava : IsJava a.name)
    (hjava' : IsJava b.name) (h : d.resolve a.name = d.resolve b.name) :
    a.text = b.text ∧ a.tree = b.tree := by
  obtain ⟨dir, stem, hsplits⟩ := hjava.splits
  obtain ⟨dir', stem', hsplits'⟩ := hjava'.splits
  obtain ⟨htext, tree, hread, htree⟩ := ha
  obtain ⟨htext', tree', hread', htree'⟩ := hb
  obtain ⟨place, hplace, hat⟩ := Disk.read_eq_ok_iff.1 htext
  obtain ⟨place', hplace', hat'⟩ := Disk.read_eq_ok_iff.1 htext'
  obtain rfl : place = place' := Except.ok.inj (hplace.symm.trans (h.trans hplace'))
  obtain ⟨-, base, hdir, -, rfl⟩ :=
    (Disk.resolve_eq_ok_iff hsplits (ofList_java_ne_up stem)).1 hplace
  obtain ⟨-, base', hdir', -, hbase⟩ :=
    (Disk.resolve_eq_ok_iff hsplits' (ofList_java_ne_up stem')).1 hplace'
  obtain ⟨rfl, hname⟩ := name_inj hbase
  constructor
  · exact Entry.file.inj (Option.some.inj (hat.symm.trans hat'))
  · obtain ⟨beside, hbeside, hat⟩ := Disk.read_eq_ok_iff.1 hread
    obtain ⟨beside', hbeside', hat'⟩ := Disk.read_eq_ok_iff.1 hread'
    obtain ⟨-, base₁, hdir₁, -, rfl⟩ :=
      (Disk.resolve_eq_ok_iff (treePath_splits hsplits) (ofList_tree_ne_up _)).1 hbeside
    obtain ⟨-, base₂, hdir₂, -, rfl⟩ :=
      (Disk.resolve_eq_ok_iff (treePath_splits hsplits') (ofList_tree_ne_up _)).1 hbeside'
    rw [← hdir.unique hdir₁, hname] at hat
    rw [← hdir'.unique hdir₂] at hat'
    obtain rfl : tree = tree' := Entry.file.inj (Option.some.inj (hat.symm.trans hat'))
    exact Option.some.inj (htree.symm.trans htree')

/-- Outputs at one place have names that are merged into one. -/
theorem oneOutput_of_resolve {path path' : String} {dir dir' stem stem' : List Char}
    (h : Splits path dir (stem ++ javaEnding)) (h' : Splits path' dir' (stem' ++ javaEnding))
    (hdot : stem ≠ ['.']) (hdot' : stem' ≠ ['.']) {place : Place}
    (hresolve : d.resolve (outputPath t outDir path) = .ok place)
    (hresolve' : d.resolve (outputPath t outDir path') = .ok place) :
    OneOutput (fileName? path.toList) (fileName? path'.toList) ∧
      ∃ base, d.LeadsTo (outputDir outDir dir stem) base ∧
        d.LeadsTo (outputDir outDir dir' stem') base := by
  obtain ⟨-, base, hdir, -, rfl⟩ := (Disk.resolve_eq_ok_iff (h.outputPath t outDir)
    (ofList_ne_up (outputName_length t hdot))).1 hresolve
  obtain ⟨-, base', hdir', -, hbase⟩ := (Disk.resolve_eq_ok_iff (h'.outputPath t outDir)
    (ofList_ne_up (outputName_length t hdot'))).1 hresolve'
  obtain ⟨rfl, hname⟩ := name_inj hbase
  exact ⟨(h.oneOutput_iff h' t).2 hname, base, hdir, hdir'⟩

/-- On a disk, sources whose names are merged into one, in one directory where the outputs stay
beside the sources, are one file. -/
def Apart (d : Disk) (outDir : Option String) (paths : List String) : Prop :=
  ∀ a ∈ paths, ∀ b ∈ paths, OneOutput (fileName? a.toList) (fileName? b.toList) →
    (outDir = none → (d.resolve a).map List.dropLast = (d.resolve b).map List.dropLast) →
    d.resolve a = d.resolve b

variable {s : Settings} {paths : List String}

theorem mem_renderFiles {files : List SourceFile} {out : OutputFile}
    (h : out ∈ (renderFiles s files).files) :
    ∃ file ∈ files, out = ⟨file.name, (renderUnit s file.text true file.tree).received⟩ := by
  rw [renderFiles_files] at h
  obtain ⟨file, hfile, rfl⟩ := List.mem_map.1 h
  exact ⟨file, (List.mem_filter.1 hfile).1, rfl⟩

/-- The outputs of sources that are apart can be read as they were written. -/
theorem Written.read (hjava : ∀ path ∈ paths, IsJava path) (hapart : Apart d outDir paths)
    {files : List SourceFile} (hfiles : ∀ file ∈ files, file.name ∈ paths ∧ file.On d)
    (hkeeps : d.Keeps d₁) {done : List OutputFile} (hdone : done ⊆ (renderFiles s files).files)
    (h : Written t outDir d₁ done d') {out : OutputFile} (hmem : out ∈ done) :
    d'.read (outputPath t outDir out.name) = .ok out.text := by
  have hnames : ∀ out ∈ done, IsJava out.name := by
    intro out hmem
    obtain ⟨file, hfile, rfl⟩ := mem_renderFiles (hdone hmem)
    exact hjava _ (hfiles file hfile).1
  have hstay : d.Keeps d' := hkeeps.trans (h.keeps hnames)
  obtain ⟨place, hresolve, last, hlast, hresolve', hat⟩ := h.output hnames hmem
  suffices htext : last.text = out.text from
    Disk.read_eq_ok_iff.2 ⟨place, hresolve, htext ▸ hat⟩
  obtain ⟨dir, stem, hsplits⟩ := (hnames _ hmem).splits
  obtain ⟨dir', stem', hsplits'⟩ := (hnames _ hlast).splits
  obtain ⟨hone, base, hdir, hdir'⟩ := oneOutput_of_resolve hsplits hsplits'
    (h.stem_ne hmem hsplits) (h.stem_ne hlast hsplits') hresolve hresolve'
  obtain ⟨file, hfile, rfl⟩ := mem_renderFiles (hdone hmem)
  obtain ⟨file', hfile', rfl⟩ := mem_renderFiles (hdone hlast)
  obtain ⟨hpath, hon⟩ := hfiles file hfile
  obtain ⟨hpath', hon'⟩ := hfiles file' hfile'
  have hsource : d.resolve file.name = d.resolve file'.name := by
    apply hapart _ hpath _ hpath' hone
    rintro rfl
    -- the outputs are beside the sources, and the directories are where they were
    obtain ⟨source, hplace, -⟩ := Disk.read_eq_ok_iff.1 hon.1
    obtain ⟨source', hplace', -⟩ := Disk.read_eq_ok_iff.1 hon'.1
    rw [hplace, hplace']
    obtain ⟨-, base₁, hdir₁, -, rfl⟩ :=
      (Disk.resolve_eq_ok_iff hsplits (ofList_java_ne_up stem)).1 hplace
    obtain ⟨-, base₂, hdir₂, -, rfl⟩ :=
      (Disk.resolve_eq_ok_iff hsplits' (ofList_java_ne_up stem')).1 hplace'
    have hbase : base₁ = base := (hstay.leadsTo hdir₁).unique hdir
    have hbase' : base₂ = base := (hstay.leadsTo hdir₂).unique hdir'
    simp only [Except.map, List.dropLast_concat, hbase, hbase']
  obtain ⟨htext, htree⟩ := hon.same hon' (hjava _ hpath) (hjava _ hpath') hsource
  rw [htext, htree]

/-! ## Batches -/

/-- What emitting outputs leaves behind: those that have been written can be read at their paths,
and they are all, or those in front of the first that the disk does not take. -/
structure Emitted (t : Target) (outDir : Option String) (files done : List OutputFile)
    (outcome : Except BatchError (List String) × Disk) : Prop where
  reads : ∀ file ∈ done, outcome.2.read (outputPath t outDir file.name) = .ok file.text
  ends : done = files ∧ outcome.1 = .ok (files.map fun file => outputPath t outDir file.name) ∨
    (∃ path e, done = [] ∧ outDir = some path ∧ outcome.1 = .error (.write path e)) ∨
    ∃ file rest e, files = done ++ file :: rest ∧
      outcome.1 = .error (.write (outputPath t outDir file.name) e)

theorem EmitsTo.written {files done : List OutputFile}
    {outcome : Except BatchError (List String) × Disk}
    (h : EmitsTo t outDir d files outcome done) : Written t outDir d done outcome.2 := by
  cases h with
  | all hwritten => exact hwritten
  | upTo _ hwritten _ => exact hwritten

theorem EmitsTo.subset {files done : List OutputFile}
    {outcome : Except BatchError (List String) × Disk}
    (h : EmitsTo t outDir d files outcome done) : done ⊆ files := by
  cases h with
  | all => exact List.Subset.refl _
  | upTo hfiles => exact hfiles ▸ List.subset_append_left _ _

theorem EmitsTo.emitted {files done : List OutputFile}
    {outcome : Except BatchError (List String) × Disk} (h : EmitsTo t outDir d files outcome done)
    (hreads : ∀ file ∈ done, outcome.2.read (outputPath t outDir file.name) = .ok file.text) :
    Emitted t outDir files done outcome := by
  refine ⟨hreads, ?_⟩
  cases h with
  | all => exact .inl ⟨rfl, rfl⟩
  | upTo hfiles _ hfail => exact .inr (.inr ⟨_, _, _, hfiles, rfl⟩)

/-- Emitting writes the outputs after the directory has been made, on a disk with all directories
that were there. -/
theorem emit_course (t : Target) (outDir : Option String) (files : List OutputFile) (d : Disk) :
    (∃ path e d', outDir = some path ∧
        runOn (emit t outDir files) d = (.error (.write path e), d')) ∨
      ∃ d₁ done, d.Keeps d₁ ∧ EmitsTo t outDir d₁ files (runOn (emit t outDir files) d) done := by
  cases outDir with
  | none =>
    obtain ⟨done, hdone⟩ := emitFiles_course t none files d
    exact .inr ⟨d, done, .refl d, hdone⟩
  | some path =>
    have hkeeps := keeping_makeDirs path d
    rw [emit, runOn_lift_bind]
    generalize (FileStore.makeDirs path : StateM Disk (Except FileError Unit)).run d = outcome
      at hkeeps
    obtain ⟨made, d₁⟩ := outcome
    cases made with
    | error e => exact .inl ⟨path, e, d₁, rfl, rfl⟩
    | ok =>
      obtain ⟨done, hdone⟩ := emitFiles_course t (some path) files d₁
      exact .inr ⟨d₁, done, hkeeps, hdone⟩

theorem emitted_of_apart (hjava : ∀ path ∈ paths, IsJava path) (hapart : Apart d outDir paths)
    (s : Settings) :
    let loaded := (loadFiles paths : StateM Disk _).run d
    let files := (renderFiles s loaded.1.1).files
    ∃ done, Emitted s.target outDir files done
      (runOn (emit s.target outDir files) loaded.2) := by
  intro loaded files
  obtain ⟨hdisk, hfiles⟩ := loadFiles_spec paths d
  have hdisk : loaded.2 = d := hdisk
  rw [hdisk]
  rcases emit_course s.target outDir files d with
    ⟨path, e, d', hdir, hfail⟩ | ⟨d₁, done, hkeeps, hemits⟩
  · refine ⟨[], nofun, .inr (.inl ⟨path, e, rfl, hdir, ?_⟩)⟩
    rw [hfail]
  · refine ⟨done, hemits.emitted fun file hmem => ?_⟩
    exact hemits.written.read hjava hapart hfiles hkeeps hemits.subset hmem

/-- The file names keep the outputs apart: beside their sources if none is just `.java`, and in one
directory if no two of them are merged. -/
def NamesApart (outDir : Option String) (paths : List String) : Prop :=
  (outDir = none ∧ ∀ path ∈ paths, fileName? path.toList ≠ some javaEnding) ∨
    paths.Pairwise fun a b => ¬OneOutput (fileName? a.toList) (fileName? b.toList)

theorem eq_of_map_eq {ε : Type} {f : α → β} {x y : Except ε α} (h : x.map f = y.map f)
    (hinj : ∀ a b, x = .ok a → y = .ok b → f a = f b → a = b) : x = y := by
  cases x with
  | error e =>
    cases y with
    | error e' => exact congrArg Except.error (Except.error.inj h)
    | ok b => cases h
  | ok a =>
    cases y with
    | error e' => cases h
    | ok b => exact congrArg Except.ok (hinj a b rfl rfl (Except.ok.inj h))

theorem NamesApart.apart (h : NamesApart outDir paths) (hjava : ∀ path ∈ paths, IsJava path)
    (d : Disk) : Apart d outDir paths := by
  intro a ha b hb hone hdirs
  rcases h with ⟨hnone, hfree⟩ | hpairs
  · obtain ⟨dir, stem, hsplits⟩ := (hjava a ha).splits
    obtain ⟨dir', stem', hsplits'⟩ := (hjava b hb).splits
    have hname := hone.eq_of_ne (hfree a ha) (hfree b hb)
    rw [hsplits.fileName? (java_ne_up stem), hsplits'.fileName? (java_ne_up stem')] at hname
    refine eq_of_map_eq (hdirs hnone) fun place place' hplace hplace' hbase => ?_
    obtain ⟨-, base, -, -, rfl⟩ :=
      (Disk.resolve_eq_ok_iff hsplits (ofList_java_ne_up stem)).1 hplace
    obtain ⟨-, base', -, -, rfl⟩ :=
      (Disk.resolve_eq_ok_iff hsplits' (ofList_java_ne_up stem')).1 hplace'
    rw [List.dropLast_concat, List.dropLast_concat] at hbase
    rw [hbase, Option.some.inj hname]
  · by_contra hne
    have hab : a ≠ b := fun heq => hne (heq ▸ rfl)
    have : Std.Symm fun a b : String => ¬OneOutput (fileName? a.toList) (fileName? b.toList) :=
      ⟨fun a b h hone => h hone.symm⟩
    exact hpairs.forall ha hb hab hone

theorem NamesApart.pairwise (h : NamesApart outDir paths) (hjava : ∀ path ∈ paths, IsJava path)
    (hdistinct : paths.Pairwise fun a b => ¬Same a b) :
    paths.Pairwise fun a b => ¬Merged outDir a b := by
  rcases h with ⟨rfl, hfree⟩ | hpairs
  · refine hdistinct.imp_of_mem fun ha hb hab hmerged => hab ?_
    obtain ⟨dir, stem, hsplits⟩ := (hjava _ ha).splits
    obtain ⟨dir', stem', hsplits'⟩ := (hjava _ hb).splits
    have hname := hmerged.1.eq_of_ne (hfree _ ha) (hfree _ hb)
    rw [hsplits.fileName? (java_ne_up stem), hsplits'.fileName? (java_ne_up stem')] at hname
    have hdirs := (hsplits.siblings_iff hsplits').1 (hmerged.2 (.inl rfl))
    exact (hsplits.same_iff hsplits').2 ⟨hdirs, Option.some.inj hname⟩
  · exact hpairs.imp fun hone hmerged => hone hmerged.1

end Lockstep.Batch
