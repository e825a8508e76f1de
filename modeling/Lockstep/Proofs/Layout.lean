import Lockstep.Proofs.CursorMoves
import Lockstep.Text.Extent

/-!
# The layout of a node in the source

A node is written as tokens and as the nodes inside it, in the order of the grammar of Java, with
white space and comments between them.

- `Layout`: the tokens and nodes that make up a node.
- `Layout.Lies`: a layout lies between two places of a source.
- `Layout.FaithfulTo`: a layout lies somewhere in a source.
- `Interleaves`: a text consists of tokens and whole runs of trivia.
-/

namespace Lockstep.Tree

open Source Text

/-- What a node looks like in a source. -/
inductive Layout where
  | token (text : String)
  | node (extent : Extent) (parts : List Layout)
  /-- A node of which only the place is known. -/
  | unknown (extent : Extent)

namespace Layout

/-- The place that the tree gives for the layout. -/
def extent? : Layout → Option Extent
  | .token _ => none
  | .node extent _ | .unknown extent => some extent

mutual

/-- The tokens of a layout. -/
def tokens : Layout → List String
  | .token text => [text]
  | .node _ parts => allTokens parts
  | .unknown _ => []

def allTokens : List Layout → List String
  | [] => []
  | f :: fs => f.tokens ++ allTokens fs

end

theorem allTokens_append (fs gs : List Layout) :
    allTokens (fs ++ gs) = allTokens fs ++ allTokens gs := by
  induction fs with
  | nil => rfl
  | cons f fs ih => simp only [List.cons_append, allTokens, ih, List.append_assoc]

/-- Layouts with commas between them. -/
def separated : List Layout → List Layout
  | [] => []
  | [f] => [f]
  | f :: fs => f :: .token "," :: separated fs

/-- What follows the first of several layouts with commas between them. -/
def afterFirst : List Layout → List Layout
  | [] => []
  | f :: fs => .token "," :: separated (f :: fs)

theorem separated_cons (f : Layout) (fs : List Layout) :
    separated (f :: fs) = f :: afterFirst fs := by
  cases fs <;> rfl

/-- Layouts with a token before each. -/
def links (token : String) (fs : List Layout) : List Layout :=
  fs.flatMap fun f => [.token token, f]

/-! ## Where a layout lies -/

mutual

/-- The layout lies between two places of a source: it begins where no run of trivia begins, a token
is there as it is spelled, and a node is where the tree says. -/
def Lies : Layout → Cursor → Cursor → Prop
  | .token text, c, d => Trivia.next c.ahead = .absent ∧ c.Passes text.toList d
  | .node extent parts, c, d =>
    Trivia.next c.ahead = .absent ∧ c.offset = extent.start ∧ d.offset = extent.stop.toNat ∧
      LieAll parts c d
  | .unknown extent, c, d =>
    Trivia.next c.ahead = .absent ∧ c.offset = extent.start ∧ d.offset = extent.stop.toNat ∧
      ∃ text, c.Passes text d

/-- The layouts lie between two places, with whole runs of trivia between each two. -/
def LieAll : List Layout → Cursor → Cursor → Prop
  | [], c, d => d = c
  | f :: fs, c, e => ∃ d, f.Lies c d ∧ LieAfter fs d e

/-- The layouts lie between two places, with whole runs of trivia before each. -/
def LieAfter : List Layout → Cursor → Cursor → Prop
  | [], c, d => d = c
  | f :: fs, c, e =>
    ∃ gap start d, c.Passes gap start ∧ Trivia.Runs gap start.ahead ∧ f.Lies start d ∧
      LieAfter fs d e

end

/-- The layout lies in the source. -/
def FaithfulTo (f : Layout) (source : List Char) : Prop :=
  ∃ c d : Cursor, c.text = source ∧ f.Lies c d

variable {f : Layout} {fs gs : List Layout} {c d e : Cursor}

theorem Lies.absent (h : f.Lies c d) : Trivia.next c.ahead = .absent := by
  cases f <;> exact h.1

theorem Lies.offset_eq {x : Extent} (h : f.Lies c d) (hx : f.extent? = some x) :
    c.offset = x.start ∧ d.offset = x.stop.toNat := by
  cases f with
  | token => cases hx
  | node | unknown =>
    cases hx
    exact ⟨h.2.1, h.2.2.1⟩

mutual

theorem Lies.passes : {f : Layout} → {c d : Cursor} → f.Lies c d → ∃ text, c.Passes text d
  | .token _, _, _, h => ⟨_, h.2⟩
  | .node _ _, _, _, h => LieAll.passes h.2.2.2
  | .unknown _, _, _, h => h.2.2.2

theorem LieAll.passes : {fs : List Layout} → {c d : Cursor} → LieAll fs c d →
    ∃ text, c.Passes text d
  | [], c, _, h => ⟨[], h ▸ .refl c⟩
  | _ :: _, _, _, ⟨_, hf, hfs⟩ =>
    have ⟨_, h⟩ := Lies.passes hf
    have ⟨_, h'⟩ := LieAfter.passes hfs
    ⟨_, h.trans h'⟩

theorem LieAfter.passes : {fs : List Layout} → {c d : Cursor} → LieAfter fs c d →
    ∃ text, c.Passes text d
  | [], c, _, h => ⟨[], h ▸ .refl c⟩
  | _ :: _, _, _, ⟨_, _, _, hgap, _, hf, hfs⟩ =>
    have ⟨_, h⟩ := Lies.passes hf
    have ⟨_, h'⟩ := LieAfter.passes hfs
    ⟨_, hgap.trans (h.trans h')⟩

end

theorem LieAfter.append (h : LieAfter fs c d) (h' : LieAfter gs d e) :
    LieAfter (fs ++ gs) c e := by
  induction fs generalizing c with
  | nil =>
    cases h
    exact h'
  | cons f fs ih =>
    obtain ⟨gap, start, stop, hgap, hruns, hf, hfs⟩ := h
    exact ⟨gap, start, stop, hgap, hruns, hf, ih hfs⟩

theorem LieAll.append (hne : fs ≠ []) (h : LieAll fs c d) (h' : LieAfter gs d e) :
    LieAll (fs ++ gs) c e := by
  cases fs with
  | nil => exact absurd rfl hne
  | cons f fs =>
    obtain ⟨stop, hf, hfs⟩ := h
    exact ⟨stop, hf, hfs.append h'⟩

theorem LieAfter.exists_of_mem (h : LieAfter fs c d) (hf : f ∈ fs) :
    ∃ a b, a.text = c.text ∧ f.Lies a b := by
  induction fs generalizing c with
  | nil => cases hf
  | cons g gs ih =>
    obtain ⟨gap, start, stop, hgap, _, hg, hgs⟩ := h
    rcases List.mem_cons.1 hf with rfl | hf
    · exact ⟨start, stop, hgap.text_eq, hg⟩
    · obtain ⟨a, b, htext, hlies⟩ := ih hgs hf
      obtain ⟨_, hpass⟩ := hg.passes
      exact ⟨a, b, htext.trans (hpass.text_eq.trans hgap.text_eq), hlies⟩

/-- Each of several layouts that lie one after another lies somewhere. -/
theorem LieAll.exists_of_mem (h : LieAll fs c d) (hf : f ∈ fs) :
    ∃ a b, a.text = c.text ∧ f.Lies a b := by
  cases fs with
  | nil => cases hf
  | cons g gs =>
    obtain ⟨stop, hg, hgs⟩ := h
    rcases List.mem_cons.1 hf with rfl | hf
    · exact ⟨c, stop, rfl, hg⟩
    · obtain ⟨a, b, htext, hlies⟩ := hgs.exists_of_mem hf
      obtain ⟨_, hpass⟩ := hg.passes
      exact ⟨a, b, htext.trans hpass.text_eq, hlies⟩

end Layout

/-! ## Tokens and trivia -/

/-- The text consists of the tokens, in their order, and of texts of whole runs of trivia; `rest` is
what comes after it in the source. -/
inductive Interleaves : List String → List Char → List Char → Prop where
  | nil : Interleaves [] [] rest
  | trivia : Trivia.Runs gap (text ++ rest) → Interleaves tokens text rest →
      Interleaves tokens (gap ++ text) rest
  | token (token : String) : Interleaves tokens text rest →
      Interleaves (token :: tokens) (token.toList ++ text) rest

namespace Interleaves

theorem ofRuns {gap rest : List Char} (h : Trivia.Runs gap rest) : Interleaves [] gap rest := by
  have htext : Interleaves [] (gap ++ []) rest := .trivia h .nil
  rwa [List.append_nil] at htext

theorem single (token : String) (rest : List Char) :
    Interleaves [token] token.toList rest := by
  have htext : Interleaves [token] (token.toList ++ []) rest := .token token .nil
  rwa [List.append_nil] at htext

theorem append {tokens tokens' : List String} {text text' rest : List Char}
    (h : Interleaves tokens text (text' ++ rest)) (h' : Interleaves tokens' text' rest) :
    Interleaves (tokens ++ tokens') (text ++ text') rest := by
  generalize hr : text' ++ rest = r at h
  induction h with
  | nil => exact h'
  | trivia hgap _ ih =>
    subst hr
    rw [List.append_assoc]
    exact .trivia (by rwa [List.append_assoc]) (ih rfl)
  | token token _ ih =>
    rw [List.append_assoc]
    exact .token token (ih hr)

end Interleaves

end Lockstep.Tree
