import Lockstep.Proofs.RunningUnits

/-!
# Scripts without refusals

A script that has been run to its end held no refusal, save in steps that are repeated no times
(`Step.runAll_clear`). Whether a script holds one is read off its parts, so there is one lemma for
each way of putting scripts together.

- `Step.Clear`, `Step.AllClear`: a step and a script in which nothing is refused.
- `allClear_node`, `allClear_commaSeparated`, `allClear_binaryScript`, …: scripts made of scripts.
-/

namespace Lockstep

open Config Render Target Text Lockstep.Tree

namespace Render

/-! ## Scripts without refusals -/

mutual

/-- Nothing is refused in a step that is run at all. -/
@[simp]
def Step.Clear : Step → Prop
  | .refuse _ => False
  | .within _ steps | .revisit _ steps => Step.AllClear steps
  | .times count steps => 0 < count → Step.AllClear steps
  | _ => True

/-- Nothing is refused in a script. -/
def Step.AllClear : List Step → Prop
  | [] => True
  | step :: steps => step.Clear ∧ Step.AllClear steps

end

variable {ctx after : Context}

mutual

theorem Step.run_clear (step : Step) {ctx after : Context} (h : step.run ctx = .ok () after) :
    step.Clear := by
  match step with
  | .refuse error => cases h
  | .within declaration steps =>
    obtain ⟨mid, hsteps, _⟩ := inDeclaration_ok h
    exact Step.runAll_clear steps hsteps
  | .revisit pos steps =>
    obtain ⟨_, mid, _, _, hsteps, _⟩ := revisit_ok h
    exact Step.runAll_clear steps hsteps
  | .times count steps =>
    intro hpos
    obtain ⟨n, rfl⟩ := Nat.exists_eq_succ_of_ne_zero (Nat.ne_of_gt hpos)
    obtain ⟨mid, hsteps, _⟩ := repeated_succ_ok.1 h
    exact Step.runAll_clear steps hsteps
  | .enter .. | .copyTrivia | .skipTrivia | .skipBlanks | .skipLineRest | .swap .. | .emit _
  | .operator .. | .replace .. | .require _ | .modifier .. => exact trivial

/-- A script that has been run to its end holds no refusal. -/
theorem Step.runAll_clear (steps : Script) {ctx after : Context}
    (h : Step.runAll steps ctx = .ok () after) : Step.AllClear steps := by
  match steps with
  | [] => exact trivial
  | step :: steps =>
    obtain ⟨mid, hstep, hsteps⟩ := runAll_cons_ok.1 h
    exact ⟨Step.run_clear step hstep, Step.runAll_clear steps hsteps⟩

end

section Scripts

variable {target : Target} {xs ys : Script} {scripts : List Script}

@[simp]
theorem allClear_nil : Step.AllClear [] := trivial

@[simp]
theorem allClear_cons {x : Step} : Step.AllClear (x :: xs) ↔ x.Clear ∧ Step.AllClear xs := Iff.rfl

@[simp]
theorem allClear_append : Step.AllClear (xs ++ ys) ↔ Step.AllClear xs ∧ Step.AllClear ys := by
  induction xs with
  | nil => exact ⟨fun h => ⟨trivial, h⟩, fun h => h.2⟩
  | cons x xs ih => rw [List.cons_append, allClear_cons, allClear_cons, ih, and_assoc]

theorem allClear_flatMap {α : Type} {f : α → Script} {as : List α} :
    Step.AllClear (as.flatMap f) ↔ ∀ a ∈ as, Step.AllClear (f a) := by
  induction as with
  | nil => exact ⟨fun _ => List.forall_mem_nil _, fun _ => trivial⟩
  | cons a as ih => rw [List.flatMap_cons, allClear_append, ih, List.forall_mem_cons]

@[simp]
theorem not_allClear_refuse {refusal : Refusal} {kind : Kind} {extent : Extent} :
    ¬ Step.AllClear (Script.refuse target refusal kind extent) := fun h => h.1

@[simp]
theorem not_allClear_missingBinding {name : String} {extent : Extent} :
    ¬ Step.AllClear (Script.missingBinding name extent) := fun h => h.1

/-- Only where the target has a form for the kind does a node go through. -/
@[simp]
theorem allClear_node {kind : Kind} {extent : Extent} {body : Script} :
    Step.AllClear (Script.node target kind extent body) ↔
      target.supports kind = true ∧ Step.AllClear body := by
  unfold Script.node
  split
  · next hkind => exact ⟨fun h => ⟨hkind, h.2⟩, fun h => ⟨trivial, h.2⟩⟩
  · next hkind => exact ⟨fun h => absurd h not_allClear_refuse, fun h => absurd h.1 hkind⟩

@[simp]
theorem allClear_commaSeparated :
    Step.AllClear (Script.commaSeparated scripts) ↔ ∀ x ∈ scripts, Step.AllClear x := by
  induction scripts using Script.commaSeparated.induct with
  | case1 => simp [Script.commaSeparated]
  | case2 script => simp [Script.commaSeparated]
  | case3 script rest _ ih => simp [Script.commaSeparated, Script.keep, ih]

@[simp]
theorem allClear_arguments :
    Step.AllClear (Script.arguments scripts) ↔ ∀ x ∈ scripts, Step.AllClear x := by
  simp [Script.arguments, Script.keep]

@[simp]
theorem allClear_terminator : Step.AllClear (Script.terminator target) :=
  ⟨trivial, trivial, trivial⟩

@[simp]
theorem clear_keep {token : String} : (Script.keep token).Clear := trivial

@[simp]
theorem clear_drop {token : String} : (Script.drop token).Clear := trivial

@[simp]
theorem clear_operator {token replacement : String} {spaced : Bool} :
    (Script.operator target token replacement spaced).Clear := trivial

@[simp]
theorem allClear_wrapped {wrap : Bool} : Step.AllClear (wrapped wrap xs) ↔ Step.AllClear xs := by
  cases wrap <;> simp [wrapped]

@[simp]
theorem allClear_chainScript {token replacement : String} {grouped : Bool} :
    Step.AllClear (chainScript target token replacement grouped scripts) ↔
      ∀ x ∈ scripts, Step.AllClear x := by
  induction scripts with
  | nil => simp [chainScript]
  | cons x scripts ih => cases grouped <;> simp [chainScript, ih]

@[simp]
theorem allClear_binaryScript {op : BinaryOp} {replacement : String} :
    Step.AllClear (binaryScript target op replacement xs ys scripts) ↔
      Step.AllClear xs ∧ Step.AllClear ys ∧ ∀ x ∈ scripts, Step.AllClear x := by
  have hopened : Step.AllClear (scripts.map fun _ => Step.emit "(") := by
    induction scripts with
    | nil => exact trivial
    | cons x scripts ih => exact ⟨trivial, ih⟩
  unfold binaryScript
  dsimp only
  split
  · simp only [allClear_append, hopened, allClear_cons, clear_operator, allClear_nil,
      allClear_chainScript, and_self, true_and, and_true, and_assoc]
  · simp only [allClear_append, allClear_cons, clear_operator, allClear_nil,
      allClear_chainScript, and_self, true_and, and_true, and_assoc]

@[simp]
theorem allClear_callOperands {token : String} :
    Step.AllClear (callOperands token scripts) ↔ ∀ x ∈ scripts, Step.AllClear x := by
  induction scripts with
  | nil => simp [callOperands]
  | cons x scripts ih => simp [callOperands, ih]

@[simp]
theorem allClear_nestedCalls {token : String} :
    Step.AllClear (nestedCalls token xs scripts) ↔
      Step.AllClear xs ∧ ∀ x ∈ scripts, Step.AllClear x := by
  simp [nestedCalls, allClear_flatMap]

@[simp]
theorem allClear_arrayScript {dimensions : Nat} :
    Step.AllClear (arrayScript target xs dimensions) ↔ Step.AllClear xs := by
  unfold arrayScript
  split <;> simp [brackets, closingBracket]

end Scripts

end Render

end Lockstep
