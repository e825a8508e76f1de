/-!
# Splitting at a character

- `splitAtChar`: the parts of a text between the occurrences of a character.
- `intercalate_splitAtChar`, `splitAtChar_intercalate`: putting the character back between the
  parts is the inverse.
-/

namespace Lockstep.Text

/-- The parts of a text between the occurrences of a character; one part if it does not occur. -/
def splitAtChar (sep : Char) : List Char → List (List Char)
  | [] => [[]]
  | c :: rest =>
    if c == sep then [] :: splitAtChar sep rest
    else match splitAtChar sep rest with
      | [] => [[c]]
      | part :: parts => (c :: part) :: parts

theorem splitAtChar_ne_nil (sep : Char) (cs : List Char) : splitAtChar sep cs ≠ [] := by
  cases cs with
  | nil => simp [splitAtChar]
  | cons c rest =>
    unfold splitAtChar
    split
    · simp
    · split <;> simp

/-- No part holds the character. -/
theorem not_mem_of_mem_splitAtChar {sep : Char} {cs part : List Char}
    (h : part ∈ splitAtChar sep cs) : sep ∉ part := by
  induction cs generalizing part with
  | nil => simp_all [splitAtChar]
  | cons c rest ih =>
    unfold splitAtChar at h
    split at h
    · rcases List.mem_cons.1 h with rfl | h
      · simp
      · exact ih h
    · rename_i hc
      have hne : sep ≠ c := fun e => hc (by simp [e])
      split at h
      · simp only [List.mem_singleton] at h
        simpa [h] using hne
      · rename_i first parts hparts
        rcases List.mem_cons.1 h with rfl | h
        · have := ih (show first ∈ splitAtChar sep rest by simp [hparts])
          simp [hne, this]
        · exact ih (by simp [hparts, h])

/-- The parts with the character between them are the text again. -/
theorem intercalate_splitAtChar (sep : Char) (cs : List Char) :
    [sep].intercalate (splitAtChar sep cs) = cs := by
  induction cs with
  | nil => rfl
  | cons c rest ih =>
    unfold splitAtChar
    obtain ⟨part, parts, hparts⟩ : ∃ part parts, splitAtChar sep rest = part :: parts :=
      List.exists_cons_of_ne_nil (splitAtChar_ne_nil sep rest)
    rw [hparts] at ih ⊢
    split
    · rename_i hc
      rw [beq_iff_eq.1 hc, ← ih]
      simp [List.intercalate, List.intersperse]
    · rw [← ih]
      cases parts <;> simp [List.intercalate, List.intersperse]

theorem splitAtChar_append {sep : Char} {part : List Char} (rest : List Char) (h : sep ∉ part) :
    splitAtChar sep (part ++ sep :: rest) = part :: splitAtChar sep rest := by
  induction part with
  | nil => simp [splitAtChar]
  | cons c part ih =>
    simp only [List.mem_cons, not_or] at h
    have hc : (c == sep) = false := beq_false_of_ne fun e => h.1 e.symm
    simp [splitAtChar, hc, ih h.2]

/-- The parts in front of an occurrence of the character and those behind it. -/
theorem splitAtChar_append_cons (sep : Char) (front behind : List Char) :
    splitAtChar sep (front ++ sep :: behind) = splitAtChar sep front ++ splitAtChar sep behind := by
  induction front with
  | nil => simp [splitAtChar]
  | cons c front ih =>
    obtain ⟨part, parts, hparts⟩ : ∃ part parts, splitAtChar sep front = part :: parts :=
      List.exists_cons_of_ne_nil (splitAtChar_ne_nil sep front)
    rw [hparts] at ih
    by_cases hc : c == sep
    · simp [splitAtChar, hc, ih, hparts]
    · simp [splitAtChar, hc, ih, hparts]

theorem splitAtChar_of_not_mem {sep : Char} {cs : List Char} (h : sep ∉ cs) :
    splitAtChar sep cs = [cs] := by
  induction cs with
  | nil => rfl
  | cons c cs ih =>
    simp only [List.mem_cons, not_or] at h
    have hc : (c == sep) = false := beq_false_of_ne fun e => h.1 e.symm
    simp [splitAtChar, hc, ih h.2]

/-- Parts that do not hold the character are found again. -/
theorem splitAtChar_intercalate {sep : Char} {parts : List (List Char)} (hne : parts ≠ [])
    (h : ∀ part ∈ parts, sep ∉ part) :
    splitAtChar sep ([sep].intercalate parts) = parts := by
  induction parts with
  | nil => exact absurd rfl hne
  | cons part rest ih =>
    have hpart := h part (by simp)
    cases rest with
    | nil => simpa [List.intercalate] using splitAtChar_of_not_mem hpart
    | cons next rest =>
      have ih := ih (by simp) fun p hp => h p (List.mem_cons_of_mem _ hp)
      have split : [sep].intercalate (part :: next :: rest) =
          part ++ sep :: [sep].intercalate (next :: rest) := by
        simp [List.intercalate, List.intersperse]
      rw [split, splitAtChar_append _ hpart, ih]

end Lockstep.Text
