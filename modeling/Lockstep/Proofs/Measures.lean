import Lockstep.Proofs.Passage
import Lockstep.Proofs.RunningUnits
import Lockstep.Text.Line

/-!
# Where lengths are taken

Lengths are differences of 32-bit offsets, and nothing orders the offsets of an extent that has been
read. A rendering takes a length only when it stops: of the node that is refused, or of the node that
does not begin where the cursor is.

- `Extent.start_add_length_eq`, `LineIndex.lineStart_add_column`: the arithmetic of reports.
- `RenderError.Measured`: the extent that an error has measured.
- `Measures`: all errors of a rendering measure extents with some property; closed under sequences.
- `Step.runAll_measures`: a script measures what its steps may measure.
-/

namespace Lockstep

open Config Output Render Source Target Text

/-! ## 32-bit arithmetic -/

namespace Text

/-- A length is the distance of the offsets, but for a turn if they are out of order. -/
theorem Extent.start_add_length_eq (x : Extent) :
    x.start + x.length = x.stop.toNat + if x.pos ≤ x.stop then 0 else offsetCount := by
  split
  · next h => exact x.start_add_length h
  · next h =>
    have hlt : x.stop.toNat < x.pos.toNat :=
      Nat.lt_of_not_le fun hle => h (UInt32.le_iff_toNat_le.2 hle)
    have hpos := x.pos.toNat_lt
    simp only [start, length, UInt32.toNat_sub, offsetCount]
    omega

namespace LineIndex

/-- No line starts after the offsets on it, so a column is a distance. -/
theorem lineStart_add_column (index : LineIndex) (pos : Nat) :
    index.lineStart pos + (index.position pos).column = pos :=
  Nat.add_sub_cancel' (index.lineStart_le pos)

theorem lineStart_eq_zero_iff (index : LineIndex) (pos : Nat) :
    index.lineStart pos = 0 ↔ index.line pos = 0 := by
  obtain ⟨hsize, hfirst⟩ := Array.getElem?_eq_some_iff.1 index.first
  have hline := index.line_lt_size pos
  constructor
  · intro hstart
    refine Nat.eq_zero_of_not_pos fun hpos => ?_
    have hlt := getElem_lt_getElem index.ascending hline hpos
    rw [hfirst] at hlt
    exact Nat.ne_of_gt hlt hstart
  · intro hzero
    simpa only [lineStart, hzero] using hfirst

/-- Counted from one, the column of the last offset is out of range if no line break precedes it. -/
theorem countedFromOne_column_eq_zero (text : String) {pos : Nat} (h : pos < offsetCount) :
    countedFromOne ((ofText text).position pos).column = 0 ↔
      pos + 1 = offsetCount ∧ (ofText text).line pos = 0 := by
  have hcolumn := (ofText text).lineStart_add_column pos
  have hstart := (ofText text).lineStart_eq_zero_iff pos
  unfold countedFromOne
  unfold offsetCount at h ⊢
  omega

end LineIndex

end Text

namespace Render

/-! ## What an error has measured -/

/-- The extent of which a length was taken for the error, if one was. -/
inductive RenderError.Measured : RenderError → Option Extent → Prop where
  | unsupported {refusal : Refusal} {target : Target} {kind : Tree.Kind} (x : Extent) :
    Measured (.unsupported refusal target kind x.toSpan) (some x)
  | missingBinding {name : String} (x : Extent) : Measured (.missingBinding name x.toSpan) (some x)
  /-- As much is shown of what is found as the node is long. -/
  | misplaced {kind : Tree.Kind} (x : Extent) (c : Cursor) :
    Measured (.desync s!"{kind.name} at offset {x.start}" (c.excerpt x.length) (.empty c.offset))
      (some x)
  | ofCursor (e : Cursor.Error) : Measured (.ofCursor e) none
  | output : Measured .output none

/-- Whatever stops the rendering has measured an extent with the property, or none. -/
def Measures {α : Type} (P : Extent → Prop) (x : Rendering α) : Prop :=
  ∀ ⦃ctx : Context⦄ ⦃e : RenderError⦄ ⦃after : Context⦄, x ctx = .error e after →
    ∃ measured, e.Measured measured ∧ ∀ y, measured = some y → P y

section

variable {α β : Type} {P : Extent → Prop} {x : Rendering α} {target : Target} {kind : Tree.Kind}
  {extent : Extent}

@[simp]
theorem measures_pure (a : α) : Measures P (pure a : Rendering α) := by
  intro ctx e after h
  cases h

theorem measures_bind {f : α → Rendering β} (hx : Measures P x) (hf : ∀ a, Measures P (f a)) :
    Measures P (x >>= f) := by
  intro ctx e after h
  simp only [bind, EStateM.bind] at h
  split at h
  · next a mid _ => exact hf a h
  · next e mid hstop =>
    cases h
    exact hx hstop

theorem measures_ite {c : Prop} [Decidable c] {y : Rendering α} (hx : c → Measures P x)
    (hy : ¬ c → Measures P y) : Measures P (if c then x else y) := by
  split
  · next h => exact hx h
  · next h => exact hy h

@[simp]
theorem measures_get : Measures P (get : Rendering Context) := by
  intro ctx e after h
  cases h

@[simp]
theorem measures_modify (f : Context → Context) : Measures P (modify f : Rendering Unit) := by
  intro ctx e after h
  cases h

theorem measures_throw {e : RenderError} {measured : Option Extent} (h : e.Measured measured)
    (hP : ∀ y, measured = some y → P y) : Measures P (throw e : Rendering α) := by
  intro ctx e' after h'
  cases h'
  exact ⟨measured, h, hP⟩

theorem measures_unsupported {refusal : Refusal} (h : P extent) :
    Measures P (throw (.unsupported refusal target kind extent.toSpan) : Rendering α) :=
  measures_throw (.unsupported extent) fun _ heq => Option.some.inj heq ▸ h

@[simp]
theorem measures_walk (w : Cursor.Walk α) : Measures P (walk w) := by
  intro ctx e after h
  simp only [walk] at h
  split at h
  · cases h
  · next cause _ _ =>
    cases h
    exact ⟨none, .ofCursor cause, fun _ heq => by cases heq⟩

@[simp]
theorem measures_output (w : Writer.Write α) : Measures P (output w) := by
  intro ctx e after h
  simp only [output] at h
  split at h
  · cases h
  · cases h
    exact ⟨none, .output, fun _ heq => by cases heq⟩

@[simp]
theorem measures_write (text : String) : Measures P (write text) := measures_output _

@[simp]
theorem measures_jumpTo (pos : Nat) : Measures P (jumpTo pos) := measures_walk _

@[simp]
theorem measures_copyTriviaUntil (limit : Option Nat) : Measures P (copyTriviaUntil limit) :=
  measures_bind (measures_walk _) fun _ =>
    measures_ite (fun _ => measures_pure _) fun _ =>
      measures_bind (measures_write _) fun _ => measures_pure _

@[simp]
theorem measures_copyTrivia : Measures P copyTrivia := measures_copyTriviaUntil none

@[simp]
theorem measures_skipTriviaUntil (limit : Option Nat) : Measures P (skipTriviaUntil limit) :=
  measures_bind (measures_walk _) fun _ => measures_pure _

@[simp]
theorem measures_skipBlanks : Measures P skipBlanks :=
  measures_bind (measures_walk _) fun _ => measures_pure _

@[simp]
theorem measures_skipLineRest : Measures P skipLineRest := measures_walk _

@[simp]
theorem measures_swap (token replacement : String) : Measures P (swap token replacement) :=
  measures_bind (measures_walk _) fun _ => measures_write _

/-- What an extent covers is looked up only if its offsets are in order. -/
@[simp]
theorem measures_replaceExtent (text : String) : Measures P (replaceExtent extent text) :=
  measures_bind measures_get fun _ => measures_bind (measures_jumpTo _) fun _ => measures_swap _ _

@[simp]
theorem measures_swapOperator (token replacement : String) (balanced spaced : Bool) :
    Measures P (swapOperator token replacement balanced spaced) := by
  have hpad {α : Type} (needed : Bool) {f : Unit → Rendering α} (hf : Measures P (f ())) :
      Measures P (if needed then write " " >>= f else f ()) :=
    measures_ite (fun _ => measures_bind (measures_write _) fun _ => hf) fun _ => hf
  have hend (needed : Bool) : Measures P (if needed then write " " else pure ()) :=
    measures_ite (fun _ => measures_write _) fun _ => measures_pure _
  refine measures_bind measures_copyTrivia fun before => measures_bind measures_get fun ctx => ?_
  refine hpad _ (measures_bind (measures_swap _ _) fun _ => ?_)
  exact measures_bind measures_copyTrivia fun after => hend _

theorem measures_enter (h : P extent) : Measures P (enter kind extent) :=
  measures_bind measures_get fun ctx => measures_ite (fun _ => measures_pure _) fun _ =>
    measures_throw (.misplaced extent ctx.cursor) fun _ heq => Option.some.inj heq ▸ h

theorem measures_revisit {x : Rendering Unit} (pos : Nat) (h : Measures P x) :
    Measures P (revisit pos x) :=
  measures_bind measures_get fun _ => measures_bind (measures_jumpTo _) fun _ =>
    measures_bind h fun _ => measures_jumpTo _

theorem measures_inDeclaration (declaration : Declaration) (h : Measures P x) :
    Measures P (inDeclaration declaration x) := by
  intro ctx e after hstop
  simp only [inDeclaration] at hstop
  split at hstop
  · cases hstop
  · next e mid hx =>
    cases hstop
    exact h hx

theorem measures_repeated {x : Rendering Unit} (h : Measures P x) (n : Nat) :
    Measures P (repeated x n) := by
  induction n with
  | zero => exact measures_pure _
  | succ n ih => exact measures_bind h fun _ => ih

theorem measures_swapModifier {word : Tree.ModifierWord} (h : P extent) :
    Measures P (swapModifier target word extent) := by
  refine measures_bind measures_get fun ctx => ?_
  cases ctx.declaration with
  | none => exact measures_unsupported h
  | some declaration =>
    dsimp only
    split
    · exact measures_swap _ _
    · exact measures_swap _ _
    · exact measures_bind (measures_swap _ _) fun _ => measures_skipBlanks
    · exact measures_unsupported h

theorem measures_captured {x : Rendering Unit} (h : Measures P x) : Measures P (captured x) := by
  intro ctx e after hstop
  simp only [captured] at hstop
  split at hstop
  · cases hstop
  · next e mid hx =>
    cases hstop
    exact h hx

@[simp]
theorem measures_recordImport (name : String) : Measures P (recordImport name) :=
  measures_bind measures_get fun _ => measures_bind (measures_modify _) fun _ => measures_pure _

theorem measures_inNode {x : Rendering Unit} (h : P extent) (hx : Measures P x) :
    Measures P (inNode target kind extent x) := by
  rw [inNode_eq]
  exact measures_ite (fun _ => measures_bind (measures_enter h) fun _ => hx) fun _ =>
    measures_unsupported h

end

/-! ## Scripts -/

/-- The extent of which a length was taken for the error has the property. -/
def RenderError.Within (P : Extent → Prop) (e : RenderError) : Prop :=
  ∃ x, e.Measured (some x) ∧ P x

mutual

/-- The extents that a step may measure have the property. -/
@[simp]
def Step.Within (P : Extent → Prop) : Step → Prop
  | .enter _ extent | .modifier _ _ extent => P extent
  | .refuse e => e.Within P
  | .within _ steps | .revisit _ steps | .times _ steps => Step.AllWithin P steps
  | _ => True

/-- The extents that a script may measure have the property. -/
def Step.AllWithin (P : Extent → Prop) : List Step → Prop
  | [] => True
  | step :: steps => step.Within P ∧ Step.AllWithin P steps

end

mutual

theorem Step.run_measures {P : Extent → Prop} (step : Step) (h : step.Within P) :
    Measures P step.run := by
  match step with
  | .enter kind extent => exact measures_enter h
  | .modifier target word extent => exact measures_swapModifier h
  | .refuse e =>
    obtain ⟨x, hx, hP⟩ := h
    exact measures_throw hx fun y heq => Option.some.inj heq ▸ hP
  | .within declaration steps =>
    exact measures_inDeclaration declaration (Step.runAll_measures steps h)
  | .revisit pos steps => exact measures_revisit pos (Step.runAll_measures steps h)
  | .times count steps => exact measures_repeated (Step.runAll_measures steps h) count
  | .copyTrivia => exact measures_bind measures_copyTrivia fun _ => measures_pure _
  | .skipTrivia => exact measures_skipTriviaUntil none
  | .skipBlanks => exact measures_skipBlanks
  | .skipLineRest => exact measures_bind measures_skipLineRest fun _ => measures_pure _
  | .swap token replacement => exact measures_swap token replacement
  | .emit text => exact measures_write text
  | .operator token replacement balanced spaced =>
    exact measures_swapOperator token replacement balanced spaced
  | .replace extent text => exact measures_replaceExtent text
  | .require name => exact measures_modify _

/-- A script that is run measures what its steps may measure. -/
theorem Step.runAll_measures {P : Extent → Prop} (steps : Script) (h : Step.AllWithin P steps) :
    Measures P (Step.runAll steps) := by
  match steps with
  | [] => exact measures_pure ()
  | step :: steps =>
    exact measures_bind (Step.run_measures step h.1) fun _ => Step.runAll_measures steps h.2

end

section

variable {P : Extent → Prop} {target : Target} {xs ys : Script} {scripts : List Script}

@[simp]
theorem allWithin_nil : Step.AllWithin P [] := trivial

@[simp]
theorem allWithin_cons {x : Step} :
    Step.AllWithin P (x :: xs) ↔ x.Within P ∧ Step.AllWithin P xs := Iff.rfl

@[simp]
theorem allWithin_append :
    Step.AllWithin P (xs ++ ys) ↔ Step.AllWithin P xs ∧ Step.AllWithin P ys := by
  induction xs with
  | nil => exact ⟨fun h => ⟨trivial, h⟩, fun h => h.2⟩
  | cons x xs ih => rw [List.cons_append, allWithin_cons, allWithin_cons, ih, and_assoc]

theorem allWithin_flatMap {α : Type} {f : α → Script} {as : List α} :
    Step.AllWithin P (as.flatMap f) ↔ ∀ a ∈ as, Step.AllWithin P (f a) := by
  induction as with
  | nil => exact ⟨fun _ => List.forall_mem_nil _, fun _ => trivial⟩
  | cons a as ih => rw [List.flatMap_cons, allWithin_append, ih, List.forall_mem_cons]

theorem allWithin_refuse {refusal : Refusal} {kind : Tree.Kind} {extent : Extent} (h : P extent) :
    Step.AllWithin P (Script.refuse target refusal kind extent) :=
  ⟨⟨extent, .unsupported extent, h⟩, trivial⟩

theorem allWithin_missingBinding {name : String} {extent : Extent} (h : P extent) :
    Step.AllWithin P (Script.missingBinding name extent) :=
  ⟨⟨extent, .missingBinding extent, h⟩, trivial⟩

theorem allWithin_node {kind : Tree.Kind} {extent : Extent} {body : Script} (h : P extent)
    (hbody : Step.AllWithin P body) : Step.AllWithin P (Script.node target kind extent body) := by
  unfold Script.node
  split
  · exact ⟨h, hbody⟩
  · exact allWithin_refuse h

@[simp]
theorem allWithin_commaSeparated :
    Step.AllWithin P (Script.commaSeparated scripts) ↔ ∀ x ∈ scripts, Step.AllWithin P x := by
  induction scripts using Script.commaSeparated.induct with
  | case1 => simp [Script.commaSeparated]
  | case2 script => simp [Script.commaSeparated]
  | case3 script rest _ ih => simp [Script.commaSeparated, Script.keep, ih]

@[simp]
theorem allWithin_arguments :
    Step.AllWithin P (Script.arguments scripts) ↔ ∀ x ∈ scripts, Step.AllWithin P x := by
  simp [Script.arguments, Script.keep]

@[simp]
theorem allWithin_terminator : Step.AllWithin P (Script.terminator target) :=
  ⟨trivial, trivial, trivial⟩

@[simp]
theorem within_operator {token replacement : String} {spaced : Bool} :
    (Script.operator target token replacement spaced).Within P := trivial

@[simp]
theorem allWithin_wrapped {wrap : Bool} :
    Step.AllWithin P (Tree.wrapped wrap xs) ↔ Step.AllWithin P xs := by
  cases wrap <;> simp [Tree.wrapped]

@[simp]
theorem allWithin_chainScript {token replacement : String} {grouped : Bool} :
    Step.AllWithin P (Tree.chainScript target token replacement grouped scripts) ↔
      ∀ x ∈ scripts, Step.AllWithin P x := by
  induction scripts with
  | nil => simp [Tree.chainScript]
  | cons x scripts ih => cases grouped <;> simp [Tree.chainScript, ih]

@[simp]
theorem allWithin_binaryScript {op : Tree.BinaryOp} {replacement : String} :
    Step.AllWithin P (Tree.binaryScript target op replacement xs ys scripts) ↔
      Step.AllWithin P xs ∧ Step.AllWithin P ys ∧ ∀ x ∈ scripts, Step.AllWithin P x := by
  have hopened : Step.AllWithin P (scripts.map fun _ => Step.emit "(") := by
    induction scripts with
    | nil => exact trivial
    | cons x scripts ih => exact ⟨trivial, ih⟩
  unfold Tree.binaryScript
  generalize (scripts.map fun _ => Step.emit "(") = opened at hopened ⊢
  dsimp only
  split <;> simp [hopened]

@[simp]
theorem allWithin_nestedCalls {token : String} :
    Step.AllWithin P (Tree.nestedCalls token xs scripts) ↔
      Step.AllWithin P xs ∧ ∀ x ∈ scripts, Step.AllWithin P x := by
  have hoperands : Step.AllWithin P (Tree.callOperands token scripts) ↔
      ∀ x ∈ scripts, Step.AllWithin P x := by
    induction scripts with
    | nil => simp [Tree.callOperands]
    | cons x scripts ih => simp [Tree.callOperands, ih]
  simp [Tree.nestedCalls, allWithin_flatMap, hoperands]

@[simp]
theorem allWithin_arrayScript {dimensions : Nat} :
    Step.AllWithin P (Tree.arrayScript target xs dimensions) ↔ Step.AllWithin P xs := by
  unfold Tree.arrayScript
  split <;> simp [Tree.brackets, Tree.closingBracket, Script.keep, Script.drop]

end

end Render

end Lockstep
