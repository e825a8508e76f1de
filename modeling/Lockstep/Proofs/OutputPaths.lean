import Lockstep.Batch.Basic
import Mathlib.Data.List.Basic
import Mathlib.Data.List.Infix

/-!
# Where outputs go

A path to a Java file is cut after its last slash. The directory in front of the cut stays as it is,
or gives way to the one that all outputs go to; the name behind it gets the extension of the target
(`outputName`). Two names get the same one just if they are the same or `.java` and `.java.java`:
the first of these has no extension to give away, and neither has `..java` a stem to put another
extension to.

- `Path.Same`: the same path, whatever stands for nothing in it.
- `Path.Splits`: a path as a directory and a name.
- `outputPath_splits`: the directory and the name of an output.
- `outputPath_same_iff`: the sources that have one output path.
-/

namespace Lockstep

open Text Batch

namespace Path

/-- The parts of a path that stand for something. -/
def steps (path : List Char) : List (List Char) := (splitAtChar '/' path).filter (!isVoid ·)

/-- Texts of one path: they start at the same place, and the same parts follow. -/
def Same (a b : String) : Prop := lead a.toList = lead b.toList ∧ steps a.toList = steps b.toList

/-- Paths that only their last parts keep apart. -/
def Siblings (a b : String) : Prop :=
  lead a.toList = lead b.toList ∧ (steps a.toList).dropLast = (steps b.toList).dropLast

/-- Nothing, or a text with a slash at its end. -/
def IsDir (dir : List Char) : Prop := dir = [] ∨ ∃ front, dir = front ++ ['/']

/-- The parts of a directory. -/
def parts (dir : List Char) : List (List Char) := (splitAtChar '/' dir).dropLast

/-- A path that consists of a directory and a name. -/
structure Splits (path : String) (dir name : List Char) : Prop where
  text : path.toList = dir ++ name
  dir : IsDir dir
  slash : '/' ∉ name
  void : isVoid name = false

variable {a b path : String} {dir dir' name name' : List Char}

/-! ## Directories and names -/

theorem exists_dir (cs : List Char) : ∃ dir name, cs = dir ++ name ∧ IsDir dir ∧ '/' ∉ name := by
  induction cs with
  | nil => exact ⟨[], [], rfl, .inl rfl, List.not_mem_nil⟩
  | cons c cs ih =>
    obtain ⟨dir, name, rfl, rfl | ⟨front, rfl⟩, hname⟩ := ih
    · by_cases hc : c = '/'
      · subst hc
        exact ⟨['/'], name, rfl, .inr ⟨[], rfl⟩, hname⟩
      · refine ⟨[], c :: name, rfl, .inl rfl, ?_⟩
        intro hmem
        rcases List.mem_cons.1 hmem with heq | hmem
        · exact hc heq.symm
        · exact hname hmem
    · exact ⟨c :: (front ++ ['/']), name, rfl, .inr ⟨c :: front, rfl⟩, hname⟩

theorem splitAtChar_dir (hdir : IsDir dir) (hname : '/' ∉ name) :
    splitAtChar '/' (dir ++ name) = parts dir ++ [name] := by
  rcases hdir with rfl | ⟨front, rfl⟩
  · exact splitAtChar_of_not_mem hname
  · rw [parts, List.append_assoc, List.singleton_append, splitAtChar_append_cons,
      splitAtChar_append_cons, splitAtChar_of_not_mem hname,
      splitAtChar_of_not_mem List.not_mem_nil, List.dropLast_concat]

theorem ofParts_dir (hdir : IsDir dir) (hname : '/' ∉ name) :
    ofParts (parts dir ++ [name]) = dir ++ name := by
  rw [ofParts, ← splitAtChar_dir hdir hname, intercalate_splitAtChar]

theorem splitLast?_dir (hdir : IsDir dir) (hname : '/' ∉ name) (hvoid : isVoid name = false) :
    splitLast? (dir ++ name) = some ((parts dir).reverse, name) := by
  have hne : ¬isVoid name = true := Bool.eq_false_iff.1 hvoid
  rw [splitLast?, splitAtChar_dir hdir hname, List.reverse_append, List.reverse_singleton,
    List.singleton_append, List.dropWhile_cons_of_neg hne]

theorem steps_dir (hdir : IsDir dir) (hname : '/' ∉ name) (hvoid : isVoid name = false) :
    steps (dir ++ name) = steps dir ++ [name] := by
  have hnothing : splitAtChar '/' dir = parts dir ++ [[]] := by
    have hsplit := splitAtChar_dir hdir (List.not_mem_nil (a := '/'))
    rwa [List.append_nil] at hsplit
  have hkeep : [name].filter (!isVoid ·) = [name] := by simp [hvoid]
  have hdrop : [([] : List Char)].filter (!isVoid ·) = [] := rfl
  rw [steps, steps, splitAtChar_dir hdir hname, hnothing, List.filter_append, List.filter_append,
    hkeep, hdrop, List.append_nil]

theorem lead_name (hname : '/' ∉ name) (hvoid : isVoid name = false) : lead name = [] := by
  unfold lead
  split
  · exact absurd List.mem_cons_self hname
  · cases hvoid
  · exact absurd (List.mem_cons_of_mem _ List.mem_cons_self) hname
  · rfl

theorem lead_cons_cons (c d : Char) (cs : List Char) : lead (c :: d :: cs) = lead [c, d] := by
  by_cases hroot : c = '/'
  · subst hroot
    rfl
  by_cases hdot : c = '.' ∧ d = '/'
  · obtain ⟨rfl, rfl⟩ := hdot
    rfl
  have hfree (cs : List Char) : lead (c :: d :: cs) = [] := by
    unfold lead
    split
    · next heq => exact absurd (List.cons.inj heq).1 hroot
    · next heq => cases heq
    · next heq =>
      obtain ⟨hc, hd⟩ := List.cons.inj heq
      exact absurd ⟨hc, (List.cons.inj hd).1⟩ hdot
    · rfl
  rw [hfree, hfree]

/-- What a path starts with is in front of its first name. -/
theorem lead_dir (hdir : IsDir dir) (hname : '/' ∉ name) (hvoid : isVoid name = false) :
    lead (dir ++ name) = lead dir := by
  rcases hdir with rfl | ⟨_ | ⟨c, _ | ⟨d, front⟩⟩, rfl⟩
  · exact lead_name hname hvoid
  · rfl
  · exact lead_cons_cons c '/' name
  · exact (lead_cons_cons c d _).trans (lead_cons_cons c d _).symm

namespace Splits

theorem splitLast? (h : Splits path dir name) :
    Path.splitLast? path.toList = some ((parts dir).reverse, name) := by
  rw [h.text]
  exact splitLast?_dir h.dir h.slash h.void

theorem fileName? (h : Splits path dir name) (hup : name ≠ ['.', '.']) :
    Path.fileName? path.toList = some name := by
  rw [Path.fileName?, h.splitLast?]
  exact if_neg fun heq => hup (beq_iff_eq.1 heq)

theorem same_iff (ha : Splits a dir name) (hb : Splits b dir' name') :
    Same a b ↔ (lead dir = lead dir' ∧ steps dir = steps dir') ∧ name = name' := by
  rw [Same, ha.text, hb.text, lead_dir ha.dir ha.slash ha.void, lead_dir hb.dir hb.slash hb.void,
    steps_dir ha.dir ha.slash ha.void, steps_dir hb.dir hb.slash hb.void, and_assoc]
  refine and_congr_right' ⟨fun h => ?_, fun h => ?_⟩
  · obtain ⟨hsteps, hname⟩ := List.append_inj' h rfl
    exact ⟨hsteps, List.singleton_inj.1 hname⟩
  · rw [h.1, h.2]

theorem siblings_iff (ha : Splits a dir name) (hb : Splits b dir' name') :
    Siblings a b ↔ lead dir = lead dir' ∧ steps dir = steps dir' := by
  rw [Siblings, ha.text, hb.text, lead_dir ha.dir ha.slash ha.void,
    lead_dir hb.dir hb.slash hb.void, steps_dir ha.dir ha.slash ha.void,
    steps_dir hb.dir hb.slash hb.void, List.dropLast_concat, List.dropLast_concat]

end Splits

/-! ## Other extensions -/

theorem splitName_dot (stem : List Char) {ending : List Char} (hending : '.' ∉ ending) :
    splitName (stem ++ '.' :: ending) =
      if stem = [] then (stem ++ '.' :: ending, none) else (stem, some ending) := by
  have hsplit : (splitAtChar '.' (stem ++ '.' :: ending)).reverse =
      ending :: (splitAtChar '.' stem).reverse := by
    rw [splitAtChar_append_cons, splitAtChar_of_not_mem hending, List.reverse_append,
      List.reverse_singleton, List.singleton_append]
  simp only [splitName, hsplit, List.reverse_reverse, intercalate_splitAtChar, List.isEmpty_iff]

theorem isVoid_of_length {part : List Char} (h : 2 ≤ part.length) : isVoid part = false := by
  rcases part with - | ⟨c, - | ⟨d, part⟩⟩
  · exact absurd h (by decide)
  · exact absurd h (by simp)
  · exact beq_false_of_ne fun heq => by cases heq

/-- The end of the name of a Java file. -/
def javaEnding : List Char := ['.', 'j', 'a', 'v', 'a']

/-- A path to a Java file. -/
def IsJava (path : String) : Prop := ∃ base, path.toList = base ++ javaEnding

/-- What an extension is put behind: the stem, or the whole name if there is no stem. -/
def keptName (stem : List Char) : List Char := if stem = [] then javaEnding else stem

/-- The name of the output for the Java file with a stem. -/
def outputName (extension : String) (stem : List Char) : List Char :=
  if stem = ['.'] then ['.', '.'] else keptName stem ++ '.' :: extension.toList

variable {stem stem' : List Char} {extension : String}

/-- A path is split before its last part, if that ends in two characters or more. -/
theorem Splits.ofEnding {ending : List Char} (htext : path.toList = dir ++ (stem ++ ending))
    (hdir : IsDir dir) (hstem : '/' ∉ stem) (hslash : '/' ∉ ending) (hlength : 2 ≤ ending.length) :
    Splits path dir (stem ++ ending) where
  text := htext
  dir := hdir
  slash := by
    rw [List.mem_append]
    exact not_or_intro hstem hslash
  void := by
    apply isVoid_of_length
    rw [List.length_append]
    exact Nat.le_add_left_of_le hlength

theorem IsJava.splits (h : IsJava path) : ∃ dir stem, Splits path dir (stem ++ javaEnding) := by
  obtain ⟨base, hpath⟩ := h
  obtain ⟨dir, stem, rfl, hdir, hstem⟩ := exists_dir base
  refine ⟨dir, stem, .ofEnding ?_ hdir hstem (by decide) (by decide)⟩
  rw [hpath, List.append_assoc]

theorem java_ne_up (stem : List Char) : stem ++ javaEnding ≠ ['.', '.'] := by
  intro heq
  have hlength := congrArg List.length heq
  rw [List.length_append] at hlength
  simp only [javaEnding, List.length_cons, List.length_nil] at hlength
  omega

theorem setExtension_dir (hdir : IsDir dir) (hname : '/' ∉ name) (hvoid : isVoid name = false)
    (hup : name ≠ ['.', '.']) (hstem : (splitName name).1 = stem) (hslash : '/' ∉ stem) :
    setExtension (dir ++ name) extension = dir ++ (stem ++ '.' :: extension.toList) := by
  have hname : ¬(name == ['.', '.']) = true := fun heq => hup (beq_iff_eq.1 heq)
  rw [setExtension, splitLast?_dir hdir ‹_› hvoid]
  simp only [if_neg hname, List.reverse_reverse, hstem, ofParts_dir hdir hslash, List.append_assoc]

theorem splitName_java (stem : List Char) : splitName (stem ++ javaEnding) =
    if stem = [] then (stem ++ javaEnding, none) else (stem, some ['j', 'a', 'v', 'a']) :=
  splitName_dot stem (by decide)

/-- What becomes of a path to a Java file with another extension. -/
theorem Splits.withExtension (h : Splits path dir (stem ++ javaEnding)) (extension : String) :
    (Path.withExtension path extension).toList = dir ++ outputName extension stem := by
  have hslash : '/' ∉ stem := fun hmem => h.slash (List.mem_append_left _ hmem)
  simp only [Path.withExtension, h.fileName? (java_ne_up stem), Option.bind_some, splitName_java,
    String.toList_ofList]
  by_cases hempty : stem = []
  · subst hempty
    rw [if_pos rfl, h.text, outputName, if_neg (List.cons_ne_nil _ _).symm]
    exact setExtension_dir h.dir h.slash h.void (java_ne_up []) rfl h.slash
  · have hkept : path.toList.take (path.toList.length - 4) = dir ++ (stem ++ ['.']) := by
      have htext : path.toList = (dir ++ (stem ++ ['.'])) ++ ['j', 'a', 'v', 'a'] := by
        rw [h.text, List.append_assoc, List.append_assoc]
        rfl
      rw [htext, List.length_append]
      exact List.take_left' rfl
    have hvoid : isVoid (stem ++ ['.']) = false := by
      apply isVoid_of_length
      rw [List.length_append]
      exact Nat.succ_le_succ (List.length_pos_of_ne_nil hempty)
    have hname : '/' ∉ stem ++ ['.'] := by
      intro hmem
      rcases List.mem_append.1 hmem with hmem | hmem
      · exact hslash hmem
      · exact absurd hmem (by decide)
    rw [if_neg hempty, outputName, keptName, if_neg hempty]
    change setExtension (path.toList.take (path.toList.length - 4)) extension = _
    rw [hkept]
    by_cases hdot : stem = ['.']
    · subst hdot
      rw [setExtension, splitLast?_dir h.dir hname hvoid, if_pos rfl]
      rfl
    · have hup : stem ++ ['.'] ≠ ['.', '.'] := fun heq => hdot (List.append_inj' heq rfl).1
      have hstem : (splitName (stem ++ ['.'])).1 = stem := by
        rw [splitName_dot stem List.not_mem_nil, if_neg hempty]
      rw [if_neg hdot]
      exact setExtension_dir h.dir hname hvoid hup hstem hslash

theorem keptName_eq_iff : keptName stem = keptName stem' ↔
    stem = stem' ∨ (stem = [] ∧ stem' = javaEnding) ∨ (stem = javaEnding ∧ stem' = []) := by
  have hne : javaEnding ≠ [] := List.cons_ne_nil _ _
  unfold keptName
  by_cases hempty : stem = []
  · subst hempty
    by_cases hempty' : stem' = []
    · simp [hempty']
    · simp [hempty', eq_comm, hne]
  · by_cases hempty' : stem' = []
    · simp [hempty, hempty']
    · simp [hempty, hempty']

theorem slash_not_mem_outputName (hslash : '/' ∉ stem) (t : Target) :
    '/' ∉ outputName t.extension stem := by
  have hextension : '/' ∉ '.' :: t.extension.toList := by cases t <;> decide
  have hkept : '/' ∉ keptName stem := by
    unfold keptName
    split
    · decide
    · exact hslash
  unfold outputName
  split
  · decide
  · intro hmem
    rcases List.mem_append.1 hmem with hmem | hmem
    · exact hkept hmem
    · exact hextension hmem

/-- Only `..` is shorter than what a stem is kept with. -/
theorem outputName_length (t : Target) (hdot : stem ≠ ['.']) :
    2 < (outputName t.extension stem).length := by
  have hextension : 2 ≤ t.extension.toList.length := by cases t <;> decide
  rw [outputName, if_neg hdot, List.length_append, List.length_cons]
  have hkept : 0 < (keptName stem).length := by
    unfold keptName
    split
    · decide
    · next hempty => exact List.length_pos_of_ne_nil hempty
  omega

theorem outputName_void (t : Target) (stem : List Char) :
    isVoid (outputName t.extension stem) = false := by
  by_cases hdot : stem = ['.']
  · subst hdot
    rfl
  · exact isVoid_of_length (Nat.le_of_lt (outputName_length t hdot))

theorem outputName_eq_up_iff (t : Target) :
    outputName t.extension stem = ['.', '.'] ↔ stem = ['.'] := by
  constructor
  · intro heq
    by_contra hdot
    have hlength := outputName_length t hdot
    rw [heq] at hlength
    exact Nat.lt_irrefl 2 hlength
  · intro hdot
    exact if_pos hdot

/-- Two stems have one output name just if they are the same, or nothing and `.java`. -/
theorem outputName_eq_iff (t : Target) :
    outputName t.extension stem = outputName t.extension stem' ↔
      stem = stem' ∨ (stem = [] ∧ stem' = javaEnding) ∨ (stem = javaEnding ∧ stem' = []) := by
  have hend : ['.'] ≠ javaEnding := by decide
  by_cases hdot : stem = ['.']
  · subst hdot
    rw [eq_comm, (outputName_eq_up_iff t).2 rfl, outputName_eq_up_iff]
    simp [hend, eq_comm]
  by_cases hdot' : stem' = ['.']
  · subst hdot'
    rw [(outputName_eq_up_iff t).2 rfl, outputName_eq_up_iff]
    simp [hend]
  rw [outputName, outputName, if_neg hdot, if_neg hdot', List.append_left_inj, keptName_eq_iff]

/-! ## The outputs -/

/-- The directory that the output for a stem in a directory goes to. -/
def outputDir (outDir : Option String) (dir stem : List Char) : List Char :=
  match outDir with
  | none => dir
  | some target =>
    if stem = ['.'] then dir
    else if target.isEmpty || target.endsWith "/" then target.toList
    else target.toList ++ ['/']

theorem join_ofList (dir : String) (hname : '/' ∉ name) :
    (join dir (String.ofList name)).toList =
      (if dir.isEmpty || dir.endsWith "/" then dir.toList else dir.toList ++ ['/']) ++ name := by
  have htext : (String.ofList name).toList = name := String.toList_ofList
  have hrelative : ¬(String.ofList name).startsWith "/" = true := by
    intro hstarts
    rw [String.startsWith_string_iff, htext] at hstarts
    exact hname (hstarts.subset List.mem_cons_self)
  rw [join, if_neg hrelative]
  split
  · rw [String.toList_append, htext]
  · rw [String.toList_append, String.toList_append, htext]
    rfl

theorem isDir_outputDir (hdir : IsDir dir) (outDir : Option String) (stem : List Char) :
    IsDir (outputDir outDir dir stem) := by
  unfold outputDir
  split
  · exact hdir
  · next target =>
    split
    · exact hdir
    · split
      · next hends =>
        rcases Bool.or_eq_true_iff.1 hends with hempty | hslash
        · rw [String.isEmpty_iff.1 hempty]
          exact .inl rfl
        · rw [String.endsWith, String.Slice.endsWith_string_iff, String.copy_toSlice] at hslash
          obtain ⟨front, hfront⟩ := hslash
          exact .inr ⟨front, hfront.symm⟩
      · exact .inr ⟨target.toList, rfl⟩

/-- The directory and the name of the output for a Java file. -/
theorem Splits.outputPath (h : Splits path dir (stem ++ javaEnding)) (t : Target)
    (outDir : Option String) :
    Splits (Batch.outputPath t outDir path) (outputDir outDir dir stem)
      (outputName t.extension stem) := by
  have hslash : '/' ∉ outputName t.extension stem :=
    slash_not_mem_outputName (fun hmem => h.slash (List.mem_append_left _ hmem)) t
  have hvoid := outputName_void t stem
  have hrenamed : Splits (Path.withExtension path t.extension) dir (outputName t.extension stem) :=
    ⟨h.withExtension t.extension, h.dir, hslash, hvoid⟩
  refine ⟨?_, isDir_outputDir h.dir outDir stem, hslash, hvoid⟩
  unfold Batch.outputPath
  -- what the new path is made of is known, and how it was made is not looked at again
  generalize Path.withExtension path t.extension = renamed at hrenamed
  cases outDir with
  | none => exact hrenamed.text
  | some target =>
    by_cases hdot : stem = ['.']
    · have hfile : Path.fileName? renamed.toList = none := by
        rw [Path.fileName?, hrenamed.splitLast?, (outputName_eq_up_iff t).2 hdot]
        rfl
      simp only [hfile, outputDir, if_pos hdot]
      exact hrenamed.text
    · have hfile := hrenamed.fileName? fun heq => hdot ((outputName_eq_up_iff t).1 heq)
      simp only [hfile, outputDir, if_neg hdot]
      exact join_ofList target hslash

/-! ## One path for two outputs -/

/-- File names that get one name with another extension. -/
def OneOutput (a b : Option (List Char)) : Prop :=
  a = b ∨ (a = some javaEnding ∧ b = some (javaEnding ++ javaEnding)) ∨
    (a = some (javaEnding ++ javaEnding) ∧ b = some javaEnding)

theorem OneOutput.symm {m n : Option (List Char)} (h : OneOutput m n) : OneOutput n m := by
  rcases h with rfl | ⟨hm, hn⟩ | ⟨hm, hn⟩
  · exact .inl rfl
  · exact .inr (.inr ⟨hn, hm⟩)
  · exact .inr (.inl ⟨hn, hm⟩)

theorem OneOutput.eq_of_ne {m n : Option (List Char)} (h : OneOutput m n)
    (hm : m ≠ some javaEnding) (hn : n ≠ some javaEnding) : m = n := by
  rcases h with heq | ⟨heq, -⟩ | ⟨-, heq⟩
  · exact heq
  · exact absurd heq hm
  · exact absurd heq hn

/-- Sources that have one output path. The file name `..java` has no stem that another extension
could be put to, so that it does not lead into the directory of all outputs. -/
def Merged (outDir : Option String) (a b : String) : Prop :=
  OneOutput (fileName? a.toList) (fileName? b.toList) ∧
    (outDir = none ∨ fileName? a.toList = some ('.' :: javaEnding) → Siblings a b)

theorem Splits.oneOutput_iff (ha : Splits a dir (stem ++ javaEnding))
    (hb : Splits b dir' (stem' ++ javaEnding)) (t : Target) :
    OneOutput (Path.fileName? a.toList) (Path.fileName? b.toList) ↔
      outputName t.extension stem = outputName t.extension stem' := by
  have hnone (cs : List Char) : cs ++ javaEnding = javaEnding ↔ cs = [] :=
    List.append_left_eq_self
  rw [OneOutput, ha.fileName? (java_ne_up stem), hb.fileName? (java_ne_up stem'), outputName_eq_iff]
  simp only [Option.some.injEq, List.append_left_inj, hnone]

theorem Splits.merged_iff (ha : Splits a dir (stem ++ javaEnding))
    (hb : Splits b dir' (stem' ++ javaEnding)) (t : Target) (outDir : Option String) :
    Merged outDir a b ↔ outputName t.extension stem = outputName t.extension stem' ∧
      (outDir = none ∨ stem = ['.'] → lead dir = lead dir' ∧ steps dir = steps dir') := by
  have hdot : stem ++ javaEnding = '.' :: javaEnding ↔ stem = ['.'] := by
    rw [← List.singleton_append, List.append_left_inj]
  rw [Merged, ha.oneOutput_iff hb t, ha.siblings_iff hb, ha.fileName? (java_ne_up stem),
    Option.some.injEq, hdot]

/-- Two outputs have one path just if the names of the sources are merged into one, in one
directory. -/
theorem same_outputPath_iff (t : Target) (outDir : Option String) (ha : IsJava a) (hb : IsJava b) :
    Same (outputPath t outDir a) (outputPath t outDir b) ↔ Merged outDir a b := by
  obtain ⟨dir, stem, ha⟩ := ha.splits
  obtain ⟨dir', stem', hb⟩ := hb.splits
  rw [(ha.outputPath t outDir).same_iff (hb.outputPath t outDir), ha.merged_iff hb t outDir,
    and_comm]
  refine and_congr_right fun hname => ?_
  cases outDir with
  | none => exact ⟨fun h _ => h, fun h => h (.inl rfl)⟩
  | some target =>
    by_cases hdot : stem = ['.']
    · have hdot' : stem' = ['.'] := by
        rw [← outputName_eq_up_iff t, ← hname, outputName_eq_up_iff]
        exact hdot
      simp only [outputDir, if_pos hdot, if_pos hdot']
      exact ⟨fun h _ => h, fun h => h (.inr hdot)⟩
    · have hdot' : stem' ≠ ['.'] := by
        rw [Ne, ← outputName_eq_up_iff t, ← hname, outputName_eq_up_iff]
        exact hdot
      simp only [outputDir, if_neg hdot, if_neg hdot']
      refine iff_of_true ⟨trivial, trivial⟩ ?_
      rintro (hnone | heq)
      · cases hnone
      · exact absurd heq hdot

end Path

end Lockstep
