import Mathlib.Data.List.Basic
import Mathlib.Data.List.Infix
import Lockstep.Text.Placeholder

/-!
# Replacing a pattern

A pattern that holds the character that it begins with nowhere else has no two occurrences that
overlap. Replacing it then goes on the same way on both sides of an occurrence, and a text stays the
same only if there is nothing to replace or the pattern is put in its own place.

- `replaceAll_around`: an occurrence is replaced, whatever is around it.
- `replaceAll_eq_self_iff`: the texts that stay the same.
- `infix_between_iff`: an occurrence in a text that is put between two others.
-/

namespace Lockstep.Text

variable {mark : Char} {rest replacement xs ys text : List Char}

/-! ## Occurrences -/

/-- An occurrence that begins before the character that it begins with ends before it. -/
theorem prefix_of_prefix_append (hmark : mark ∉ rest) (hxs : xs ≠ [])
    (h : mark :: rest <+: xs ++ mark :: ys) : mark :: rest <+: xs := by
  rcases List.prefix_or_prefix_of_prefix h (List.prefix_append xs _) with hle | hge
  · exact hle
  obtain ⟨later, hlater⟩ := hge
  cases later with
  | nil =>
    rw [List.append_nil] at hlater
    exact hlater ▸ List.prefix_refl _
  | cons c later =>
    have hboth : xs ++ c :: later <+: xs ++ mark :: ys := by rwa [hlater]
    obtain ⟨rfl, -⟩ := List.cons_prefix_cons.1 ((List.prefix_append_right_inj xs).1 hboth)
    obtain ⟨d, tail, rfl⟩ := List.exists_cons_of_ne_nil hxs
    refine absurd ?_ hmark
    rw [← (List.cons.inj hlater).2]
    exact List.mem_append_right _ List.mem_cons_self

/-- An occurrence is not in front of the first character that it may begin with. -/
theorem infix_of_infix_append_left (hmark : mark ∉ xs) (h : mark :: rest <:+: xs ++ text) :
    mark :: rest <:+: text := by
  induction xs with
  | nil => exact h
  | cons c xs ih =>
    rcases List.infix_cons_iff.1 h with hhere | hlater
    · obtain ⟨rfl, -⟩ := List.cons_prefix_cons.1 hhere
      exact absurd List.mem_cons_self hmark
    · exact ih (fun hmem => hmark (List.mem_cons_of_mem _ hmem)) hlater

theorem infix_of_infix_append_right {last : Char} (hlast : last ∉ ys)
    (h : rest ++ [last] <:+: text ++ ys) : rest ++ [last] <:+: text := by
  rw [← List.reverse_infix, List.reverse_append] at h ⊢
  rw [List.reverse_append] at h
  exact infix_of_infix_append_left (fun hmem => hlast (List.mem_reverse.1 hmem)) h

/-- What is put around a text does not make an occurrence if it has neither the first nor the last
character of one. -/
theorem infix_between_iff {last : Char} (hmark : mark ∉ xs) (hlast : last ∉ ys) :
    mark :: (rest ++ [last]) <:+: xs ++ (text ++ ys) ↔ mark :: (rest ++ [last]) <:+: text := by
  constructor
  · intro h
    have hbehind : (mark :: rest) ++ [last] <:+: text ++ ys := infix_of_infix_append_left hmark h
    exact infix_of_infix_append_right hlast hbehind
  · intro h
    exact h.trans ⟨xs, ys, List.append_assoc _ _ _⟩

/-! ## Replacing -/

theorem replaceAll_pattern (mark : Char) (rest replacement ys : List Char) :
    replaceAll (mark :: rest) replacement (mark :: rest ++ ys) =
      replacement ++ replaceAll (mark :: rest) replacement ys := by
  have hbegins : (mark :: rest).isPrefixOf (mark :: (rest ++ ys)) = true :=
    List.isPrefixOf_iff_prefix.2 (List.prefix_append (mark :: rest) ys)
  rw [List.cons_append, replaceAll, if_pos hbegins, List.length_cons, Nat.add_sub_cancel,
    List.drop_left]

theorem replaceAll_cons {c : Char} (h : ¬mark :: rest <+: c :: text) :
    replaceAll (mark :: rest) replacement (c :: text) =
      c :: replaceAll (mark :: rest) replacement text := by
  rw [replaceAll, if_neg]
  intro hbegins
  exact h (List.isPrefixOf_iff_prefix.1 hbegins)

/-- A text is replaced in from one occurrence at its beginning, or from one character, to the
next. -/
theorem replaceAll_induction {motive : List Char → Prop} (mark : Char) (rest : List Char)
    (nil : motive [])
    (occurrence : ∀ ys, motive ys → motive (mark :: rest ++ ys))
    (char : ∀ c text, ¬mark :: rest <+: c :: text → motive text → motive (c :: text))
    (text : List Char) : motive text := by
  fun_induction replaceAll (mark :: rest) [] text with
  | case1 => exact nil
  | case2 c text hbegins ih =>
    obtain ⟨ys, hys⟩ := List.isPrefixOf_iff_prefix.1 hbegins
    rw [List.cons_append] at hys
    obtain ⟨rfl, rfl⟩ := List.cons.inj hys
    rw [List.length_cons, Nat.add_sub_cancel, List.drop_left] at ih
    exact occurrence ys ih
  | case3 c text hbegins ih =>
    exact char c text (fun h => hbegins (List.isPrefixOf_iff_prefix.2 h)) ih

/-- An occurrence is replaced, and what is in front of it and behind it as if it were alone. -/
theorem replaceAll_around (hmark : mark ∉ rest) (replacement xs ys : List Char) :
    replaceAll (mark :: rest) replacement (xs ++ (mark :: rest ++ ys)) =
      replaceAll (mark :: rest) replacement xs ++
        (replacement ++ replaceAll (mark :: rest) replacement ys) := by
  induction xs using replaceAll_induction mark rest with
  | nil =>
    rw [List.nil_append, replaceAll_pattern, replaceAll, List.nil_append]
  | occurrence xs ih =>
    rw [List.append_assoc, replaceAll_pattern, replaceAll_pattern, ih, List.append_assoc]
  | char c xs hfree ih =>
    have hfree' : ¬mark :: rest <+: c :: (xs ++ (mark :: rest ++ ys)) := by
      intro h
      exact hfree (prefix_of_prefix_append hmark (List.cons_ne_nil c xs) h)
    rw [List.cons_append, replaceAll_cons hfree', replaceAll_cons hfree, ih, List.cons_append]

theorem replaceAll_of_not_infix (h : ¬mark :: rest <:+: text) :
    replaceAll (mark :: rest) replacement text = text := by
  induction text with
  | nil => rw [replaceAll]
  | cons c text ih =>
    have hhere : ¬mark :: rest <+: c :: text := fun hbegins => h hbegins.isInfix
    have hlater : ¬mark :: rest <:+: text := fun hinfix => h (List.infix_cons hinfix)
    rw [replaceAll_cons hhere, ih hlater]

theorem replaceAll_append_of_not_mem (hmark : mark ∉ xs) (rest replacement ys : List Char) :
    replaceAll (mark :: rest) replacement (xs ++ ys) =
      xs ++ replaceAll (mark :: rest) replacement ys := by
  induction xs with
  | nil => rfl
  | cons c xs ih =>
    have hhere : ¬mark :: rest <+: c :: (xs ++ ys) := by
      intro hbegins
      obtain ⟨rfl, -⟩ := List.cons_prefix_cons.1 hbegins
      exact hmark List.mem_cons_self
    rw [List.cons_append, replaceAll_cons hhere, ih fun hmem => hmark (List.mem_cons_of_mem _ hmem),
      List.cons_append]

theorem replaceAll_self (mark : Char) (rest text : List Char) :
    replaceAll (mark :: rest) (mark :: rest) text = text := by
  induction text using replaceAll_induction mark rest with
  | nil => rw [replaceAll]
  | occurrence ys ih => rw [replaceAll_pattern, ih]
  | char c text hfree ih => rw [replaceAll_cons hfree, ih]

/-! ## Lengths -/

/-- Every replacement changes the length by as much. -/
theorem length_replaceAll (mark : Char) (rest replacement text : List Char) :
    ∃ count, (replaceAll (mark :: rest) replacement text).length + count * (mark :: rest).length =
      text.length + count * replacement.length := by
  induction text using replaceAll_induction mark rest with
  | nil =>
    refine ⟨0, ?_⟩
    rw [replaceAll, Nat.zero_mul, Nat.zero_mul]
  | occurrence ys ih =>
    obtain ⟨count, hcount⟩ := ih
    refine ⟨count + 1, ?_⟩
    rw [replaceAll_pattern, List.length_append, List.length_append, Nat.add_one_mul,
      Nat.add_one_mul]
    omega
  | char c text hfree ih =>
    obtain ⟨count, hcount⟩ := ih
    refine ⟨count, ?_⟩
    rw [replaceAll_cons hfree]
    simp only [List.length_cons] at hcount ⊢
    omega

/-- Parts of one text are the same one by one if their lengths differ by multiples of one
difference, all to the same side. -/
theorem append_both_inj {xs xs' sep sep' ys ys' : List Char} {l m n old new : Nat}
    (h : xs ++ (sep ++ ys) = xs' ++ (sep' ++ ys'))
    (hxs : xs.length + l * old = xs'.length + l * new)
    (hsep : sep.length + m * old = sep'.length + m * new)
    (hys : ys.length + n * old = ys'.length + n * new) : xs = xs' ∧ sep = sep' ∧ ys = ys' := by
  have hlength := congrArg List.length h
  simp only [List.length_append] at hlength
  have htotal : (l + m + n) * old = (l + m + n) * new := by
    simp only [Nat.add_mul]
    omega
  have hparts : xs.length = xs'.length ∧ sep.length = sep'.length := by
    rcases Nat.eq_zero_or_pos (l + m + n) with hzero | hpos
    · obtain ⟨hlm, rfl⟩ := Nat.add_eq_zero_iff.1 hzero
      obtain ⟨rfl, rfl⟩ := Nat.add_eq_zero_iff.1 hlm
      omega
    · obtain rfl := Nat.eq_of_mul_eq_mul_left hpos htotal
      omega
  obtain ⟨rfl, hbehind⟩ := List.append_inj h hparts.1
  obtain ⟨rfl, rfl⟩ := List.append_inj hbehind hparts.2
  exact ⟨rfl, rfl, rfl⟩

/-- A text stays the same just if the pattern replaces itself or does not occur. -/
theorem replaceAll_eq_self_iff (hmark : mark ∉ rest) :
    replaceAll (mark :: rest) replacement text = text ↔
      replacement = mark :: rest ∨ ¬mark :: rest <:+: text := by
  constructor
  · intro hself
    by_cases hoccurs : mark :: rest <:+: text
    · obtain ⟨xs, ys, rfl⟩ := hoccurs
      rw [List.append_assoc, replaceAll_around hmark] at hself
      obtain ⟨before, hbefore⟩ := length_replaceAll mark rest replacement xs
      obtain ⟨behind, hbehind⟩ := length_replaceAll mark rest replacement ys
      have hsep : replacement.length + 1 * (mark :: rest).length =
          (mark :: rest).length + 1 * replacement.length := by omega
      exact .inl (append_both_inj hself hbefore hsep hbehind).2.1
    · exact .inr hoccurs
  · rintro (rfl | habsent)
    · exact replaceAll_self mark rest text
    · exact replaceAll_of_not_infix habsent

end Lockstep.Text
