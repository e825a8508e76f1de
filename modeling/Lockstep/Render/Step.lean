import Lockstep.Render.Context
import Lockstep.Target.Operators
import Lockstep.Target.Profile

/-!
# Edit scripts

What becomes of a tree is first worked out as a script: a list of steps that pass tokens of the
source and write others for them. Only running a script touches source and output. So what is
rendered for a tree can be read off its script, and whether it goes through depends on the source.

- `Step`: a step of a script.
- `Step.run`, `Step.runAll`: running it.
- `Script.node`: the script of a node, with the checks that come before it.
-/

namespace Lockstep.Render

open Source Target Text Lockstep.Tree

/-- A step of a script. -/
inductive Step where
  /-- A node begins here. -/
  | enter (kind : Kind) (extent : Extent)
  /-- The rendering stops. -/
  | refuse (error : RenderError)
  | copyTrivia
  | skipTrivia
  | skipBlanks
  | skipLineRest
  /-- Pass a token and write its replacement. -/
  | swap (token replacement : String)
  /-- Write a text that the source has no counterpart of. -/
  | emit (text : String)
  /-- Pass a binary operator and the trivia around it. -/
  | operator (token replacement : String) (balanced spaced : Bool)
  /-- Pass a part of the source, whatever it holds. -/
  | replace (extent : Extent) (text : String)
  /-- The body needs a namespace. -/
  | require (name : String)
  /-- A modifier of the declaration at hand. -/
  | modifier (target : Target) (word : ModifierWord) (extent : Extent)
  /-- Steps for the modifiers of a declaration. -/
  | within (declaration : Declaration) (steps : List Step)
  /-- Steps from another offset. -/
  | revisit (pos : Nat) (steps : List Step)
  /-- The same steps again and again. -/
  | times (count : Nat) (steps : List Step)

/-- A script. -/
abbrev Script := List Step

/-- Run a step so many times. -/
def repeated (x : Rendering Unit) : Nat → Rendering Unit
  | 0 => pure ()
  | n + 1 => do
    x
    repeated x n

/-- Pass a modifier and write what becomes of it. -/
def swapModifier (target : Target) (word : ModifierWord) (extent : Extent) : Rendering Unit := do
  match (← get).declaration with
  | none => throw (.unsupported .noForm target .modifier extent.toSpan)
  | some declaration =>
    match modifierRule target word declaration with
    | .keep => swap word.token word.token
    | .replace replacement => swap word.token replacement
    | .drop =>
      swap word.token ""
      skipBlanks
    | .unsupported =>
      throw (.unsupported (.modifierUnsupported word.token) target .modifier extent.toSpan)

mutual

/-- Run a step. -/
def Step.run : Step → Rendering Unit
  | .enter kind extent => Render.enter kind extent
  | .refuse error => throw error
  | .copyTrivia => do let _ ← Render.copyTrivia
  | .skipTrivia => skipTriviaUntil none
  | .skipBlanks => Render.skipBlanks
  | .skipLineRest => do let _ ← Render.skipLineRest
  | .swap token replacement => Render.swap token replacement
  | .emit text => write text
  | .operator token replacement balanced spaced => swapOperator token replacement balanced spaced
  | .replace extent text => replaceExtent extent text
  | .require name => Render.require name
  | .modifier target word extent => swapModifier target word extent
  | .within declaration steps => inDeclaration declaration (Step.runAll steps)
  | .revisit pos steps => Render.revisit pos (Step.runAll steps)
  | .times count steps => repeated (Step.runAll steps) count

/-- Run steps one after another. -/
def Step.runAll : List Step → Rendering Unit
  | [] => pure ()
  | step :: steps => do
    step.run
    Step.runAll steps

end

/-- Running two scripts one after another is running them as one. -/
theorem Step.runAll_append (xs ys : Script) :
    Step.runAll (xs ++ ys) = (do Step.runAll xs; Step.runAll ys) := by
  induction xs with
  | nil => rfl
  | cons step xs ih =>
    simp only [List.cons_append, Step.runAll, ih]
    funext ctx
    simp only [bind, EStateM.bind]
    cases step.run ctx <;> rfl

namespace Script

/-- The rendering stops at a node. -/
def refuse (target : Target) (refusal : Refusal) (kind : Kind) (extent : Extent) : Script :=
  [.refuse (.unsupported refusal target kind extent.toSpan)]

/-- The rendering stops at a node of which it is not known what its member is. -/
def missingBinding (name : String) (extent : Extent) : Script :=
  [.refuse (.missingBinding name extent.toSpan)]

/-- The script of a node: nothing of it is run if the target has no form for the kind of the node,
or if the node does not begin where the cursor is. -/
def node (target : Target) (kind : Kind) (extent : Extent) (body : Script) : Script :=
  if target.supports kind then .enter kind extent :: body
  else refuse target .noForm kind extent

/-- A binary operator; Swift wants white space on both sides or on none. -/
def operator (target : Target) (token replacement : String) (spaced : Bool) : Step :=
  .operator token replacement (target == .swift) spaced

/-- Pass a token and write it. -/
def keep (token : String) : Step := .swap token token

/-- Pass a token. -/
def drop (token : String) : Step := .swap token ""

/-- Scripts with commas between them. -/
def commaSeparated : List Script → Script
  | [] => []
  | [script] => .copyTrivia :: script
  | script :: rest => .copyTrivia :: script ++ [.copyTrivia, keep ","] ++ commaSeparated rest

/-- Scripts with commas between them, in parentheses. -/
def arguments (scripts : List Script) : Script :=
  [keep "("] ++ commaSeparated scripts ++ [.copyTrivia, keep ")"]

/-- The semicolon after a statement or a member. -/
def terminator (target : Target) : Script :=
  [.copyTrivia, .swap ";" (if target.profile.hasTerminator then ";" else "")]

end Script

end Lockstep.Render
