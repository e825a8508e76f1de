import Lockstep.Proofs.Replacement
import Lockstep.Render.Error

/-!
# What a filled template quotes

The arguments are filled in one after another, but a report is read as if all of them were filled in
at once: the placeholders of the template stand for the arguments, and the rest of the text is what
it says. The two differ when an earlier argument puts a later placeholder into the text, alone or
together with what stands around it (`Arises`), unless the later argument is that placeholder
itself.

- `pieces`: a template as its characters and its placeholders.
- `fillAtOnce`: a template with its placeholders replaced (`fillAtOnce_around`) and nothing else
  (`fillAtOnce_of_free`).
- `replaceAll_spelled_iff`: when filling in one more argument keeps all others as they are.
- `fill_verbatim_iff`: when a filled template, and the report of an error, is verbatim.
-/

namespace Lockstep

open Diagnostic Render

namespace Text

variable {index : Nat} {text xs ys : List Char}

/-! ## The placeholders of a template -/

theorem placeholder_eq (index : Nat) :
    placeholder index = '{' :: (Nat.toDigits 10 index ++ ['}']) := by
  change ("\x7b" ++ index.repr ++ "\x7d").toList = _
  rw [String.toList_append, String.toList_append, Nat.toList_repr]
  rfl

theorem open_not_mem (index : Nat) : '{' ∉ Nat.toDigits 10 index ++ ['}'] := by
  intro hmem
  rcases List.mem_append.1 hmem with hdigit | hclose
  · exact absurd (Nat.isDigit_of_mem_toDigits (by decide) (by decide) hdigit) (by decide)
  · exact absurd (List.mem_singleton.1 hclose) (by decide)

/-- The index of the placeholder that a text begins with. -/
def holeAt? : List Char → Option Nat
  | '{' :: text =>
    let index := Nat.ofDigitChars 10 (text.takeWhile Char.isDigit) 0
    if (placeholder index).isPrefixOf ('{' :: text) then some index else none
  | _ => none

theorem holeAt?_placeholder (index : Nat) (ys : List Char) :
    holeAt? (placeholder index ++ ys) = some index := by
  have hdigits : (Nat.toDigits 10 index ++ ['}'] ++ ys).takeWhile Char.isDigit =
      Nat.toDigits 10 index := by
    rw [List.append_assoc, List.takeWhile_append_of_pos, List.singleton_append,
      List.takeWhile_cons_of_neg (by decide), List.append_nil]
    intro c hc
    exact Nat.isDigit_of_mem_toDigits (by decide) (by decide) hc
  have hbegins : (placeholder index).isPrefixOf (placeholder index ++ ys) = true :=
    List.isPrefixOf_iff_prefix.2 (List.prefix_append _ _)
  rw [placeholder_eq, List.cons_append, ← placeholder_eq] at *
  simp only [holeAt?, hdigits, Nat.ofDigitChars_ten_toDigits]
  exact if_pos hbegins

theorem holeAt?_eq_some_iff : holeAt? text = some index ↔ placeholder index <+: text := by
  constructor
  · intro h
    unfold holeAt? at h
    split at h
    · obtain ⟨hbegins, hindex⟩ := Option.ite_none_right_eq_some.1 h
      cases hindex
      exact List.isPrefixOf_iff_prefix.1 hbegins
    · cases h
  · rintro ⟨ys, rfl⟩
    exact holeAt?_placeholder index ys

/-- A character of a template, or a placeholder for an argument. -/
inductive Piece where
  | char (c : Char)
  | hole (index : Nat)
  deriving DecidableEq

/-- The pieces of a template. -/
def pieces : List Char → List Piece
  | [] => []
  | c :: text =>
    match holeAt? (c :: text) with
    | some index => .hole index :: pieces (text.drop ((placeholder index).length - 1))
    | none => .char c :: pieces text
  termination_by text => text.length
  decreasing_by all_goals simp only [List.length_drop, List.length_cons]; omega

theorem pieces_placeholder (index : Nat) (ys : List Char) :
    pieces (placeholder index ++ ys) = .hole index :: pieces ys := by
  have hhole := holeAt?_placeholder index ys
  rw [placeholder_eq, List.cons_append] at hhole ⊢
  rw [pieces, hhole]
  simp only [placeholder_eq, List.length_cons, Nat.add_sub_cancel, List.drop_left]

theorem pieces_char {c : Char} (h : ∀ index, ¬placeholder index <+: c :: text) :
    pieces (c :: text) = .char c :: pieces text := by
  have hnone : holeAt? (c :: text) = none := by
    apply Option.eq_none_iff_forall_ne_some.2
    intro index hsome
    exact h index (holeAt?_eq_some_iff.1 hsome)
  rw [pieces, hnone]

/-- A template is taken apart from one placeholder at its beginning, or from one character, to the
next. -/
theorem pieces_induction {motive : List Char → Prop} (nil : motive [])
    (hole : ∀ index ys, motive ys → motive (placeholder index ++ ys))
    (char : ∀ c text, (∀ index, ¬placeholder index <+: c :: text) → motive text →
      motive (c :: text))
    (text : List Char) : motive text := by
  fun_induction pieces text with
  | case1 => exact nil
  | case2 c text index hsome ih =>
    obtain ⟨ys, hys⟩ := holeAt?_eq_some_iff.1 hsome
    rw [placeholder_eq, List.length_cons, Nat.add_sub_cancel] at ih
    rw [placeholder_eq, List.cons_append] at hys
    obtain ⟨rfl, rfl⟩ := List.cons.inj hys
    rw [List.drop_left] at ih
    have := hole index ys ih
    rwa [placeholder_eq, List.cons_append] at this
  | case3 c text hnone ih =>
    refine char c text (fun index h => ?_) ih
    rw [holeAt?_eq_some_iff.2 h] at hnone
    cases hnone

/-- Each placeholder of a text is a piece, whatever is around it. -/
theorem pieces_around (xs : List Char) (index : Nat) (ys : List Char) :
    pieces (xs ++ (placeholder index ++ ys)) = pieces xs ++ .hole index :: pieces ys := by
  induction xs using pieces_induction with
  | nil => rw [List.nil_append, pieces_placeholder, pieces, List.nil_append]
  | hole other xs ih =>
    rw [List.append_assoc, pieces_placeholder, ih, pieces_placeholder, List.cons_append]
  | char c xs hfree ih =>
    have hfree' : ∀ other, ¬placeholder other <+: c :: (xs ++ (placeholder index ++ ys)) := by
      intro other h
      apply hfree other
      rw [placeholder_eq] at h ⊢
      rw [placeholder_eq index, List.cons_append] at h
      exact prefix_of_prefix_append (open_not_mem other) (List.cons_ne_nil c xs) h
    rw [List.cons_append, pieces_char hfree', ih, pieces_char hfree, List.cons_append]

/-! ## All arguments at once -/

/-- What is put for a piece: the argument, if there is one. -/
def Piece.filled (args : List String) : Piece → List Char
  | .char c => [c]
  | .hole index =>
    match args[index]? with
    | some arg => arg.toList
    | none => placeholder index

/-- The text of pieces with arguments. -/
def spelled (args : List String) (ps : List Piece) : List Char := ps.flatMap (Piece.filled args)

/-- A template with its placeholders replaced, and nothing else. -/
def fillAtOnce (template : String) (args : List String) : String :=
  String.ofList (spelled args (pieces template.toList))

variable {args : List String} {arg : String} {ps qs rs : List Piece}

theorem spelled_append (args : List String) (ps qs : List Piece) :
    spelled args (ps ++ qs) = spelled args ps ++ spelled args qs := List.flatMap_append

theorem spelled_cons (args : List String) (p : Piece) (ps : List Piece) :
    spelled args (p :: ps) = p.filled args ++ spelled args ps := List.flatMap_cons

theorem spelled_pieces (text : List Char) : spelled [] (pieces text) = text := by
  induction text using pieces_induction with
  | nil =>
    rw [pieces]
    rfl
  | hole index ys ih =>
    rw [pieces_placeholder, spelled_cons, ih]
    rfl
  | char c text hfree ih =>
    rw [pieces_char hfree, spelled_cons, ih]
    rfl

/-- A placeholder of the template becomes its argument, and the text around it does not matter. -/
theorem fillAtOnce_around {before behind : String} (h : args[index]? = some arg) :
    fillAtOnce (before ++ String.ofList (placeholder index) ++ behind) args =
      fillAtOnce before args ++ arg ++ fillAtOnce behind args := by
  apply String.toList_inj.1
  simp only [fillAtOnce, String.toList_append, String.toList_ofList, List.append_assoc,
    pieces_around, spelled_append, spelled_cons, Piece.filled, h]

/-- A template without placeholders stays as it is. -/
theorem fillAtOnce_of_free {template : String}
    (h : ∀ index, ¬placeholder index <:+: template.toList) (args : List String) :
    fillAtOnce template args = template := by
  suffices hspelled : ∀ text, (∀ index, ¬placeholder index <:+: text) →
      spelled args (pieces text) = text by
    rw [fillAtOnce, hspelled _ h, String.ofList_toList]
  intro text hfree
  induction text with
  | nil =>
    rw [pieces]
    rfl
  | cons c text ih =>
    have hhere : ∀ index, ¬placeholder index <+: c :: text :=
      fun index hbegins => hfree index hbegins.isInfix
    have hlater : ∀ index, ¬placeholder index <:+: text :=
      fun index hinfix => hfree index (List.infix_cons hinfix)
    rw [pieces_char hhere, spelled_cons, ih hlater]
    rfl

/-! ## One more argument -/

theorem filled_next (args : List String) :
    (Piece.hole args.length).filled args = placeholder args.length := by
  have hnone : args[args.length]? = none := List.getElem?_eq_none (Nat.le_refl _)
  simp only [Piece.filled, hnone]

theorem filled_concat (args : List String) (arg : String) :
    (Piece.hole args.length).filled (args ++ [arg]) = arg.toList := by
  simp only [Piece.filled, List.getElem?_concat_length]

theorem filled_concat_of_ne {p : Piece} (hne : p ≠ .hole args.length) (arg : String) :
    p.filled (args ++ [arg]) = p.filled args := by
  cases p with
  | char c => rfl
  | hole index =>
    have hindex : index ≠ args.length := fun heq => hne (congrArg Piece.hole heq)
    rcases Nat.lt_or_gt_of_ne hindex with hlt | hgt
    · simp only [Piece.filled, List.getElem?_append_left hlt]
    · have hnone : args[index]? = none := List.getElem?_eq_none (Nat.le_of_lt hgt)
      have hnone' : (args ++ [arg])[index]? = none := by
        apply List.getElem?_eq_none
        rw [List.length_append, List.length_singleton]
        exact hgt
      simp only [Piece.filled, hnone, hnone']

theorem spelled_concat_of_free (h : .hole args.length ∉ ps) (arg : String) :
    spelled (args ++ [arg]) ps = spelled args ps := by
  apply List.flatMap_congr
  intro p hp
  apply filled_concat_of_ne
  rintro rfl
  exact h hp

/-- Between two placeholders for the next argument, its placeholder is in the text. -/
def Arises (args : List String) (ps : List Piece) : Prop :=
  ∃ stretch, stretch <:+: ps ∧ .hole args.length ∉ stretch ∧
    placeholder args.length <:+: spelled args stretch

theorem arises_of_free (h : .hole args.length ∉ ps) :
    Arises args ps ↔ placeholder args.length <:+: spelled args ps := by
  constructor
  · rintro ⟨stretch, hstretch, -, hoccurs⟩
    exact hoccurs.trans (hstretch.flatMap _)
  · intro hoccurs
    exact ⟨ps, List.infix_refl ps, h, hoccurs⟩

/-- Without a piece, a stretch is on one side of it. -/
theorem infix_around_iff {p : Piece} {stretch : List Piece} (hp : p ∉ stretch) :
    stretch <:+: qs ++ p :: rs ↔ stretch <:+: qs ∨ stretch <:+: rs := by
  have hbegins {part : List Piece} (hpart : p ∉ part) (h : part <+: p :: rs) : part = [] := by
    rcases List.prefix_cons_iff.1 h with rfl | ⟨tail, rfl, -⟩
    · rfl
    · exact absurd List.mem_cons_self hpart
  constructor
  · intro h
    rcases List.infix_append_iff.1 h with hqs | hrs | ⟨front, back, rfl, hfront, hback⟩
    · exact .inl hqs
    · rcases List.infix_cons_iff.1 hrs with hhere | hlater
      · rw [hbegins hp hhere]
        exact .inl List.nil_infix
      · exact .inr hlater
    · rw [hbegins (fun hmem => hp (List.mem_append_right _ hmem)) hback, List.append_nil]
      exact .inl hfront.isInfix
  · rintro (hqs | hrs)
    · exact hqs.trans (List.prefix_append _ _).isInfix
    · exact (List.infix_cons hrs).trans (List.suffix_append _ _).isInfix

theorem arises_around :
    Arises args (qs ++ .hole args.length :: rs) ↔ Arises args qs ∨ Arises args rs := by
  constructor
  · rintro ⟨stretch, hstretch, hfree, hoccurs⟩
    rcases (infix_around_iff hfree).1 hstretch with hqs | hrs
    · exact .inl ⟨stretch, hqs, hfree, hoccurs⟩
    · exact .inr ⟨stretch, hrs, hfree, hoccurs⟩
  · rintro (⟨stretch, hqs, hfree, hoccurs⟩ | ⟨stretch, hrs, hfree, hoccurs⟩)
    · exact ⟨stretch, (infix_around_iff hfree).2 (.inl hqs), hfree, hoccurs⟩
    · exact ⟨stretch, (infix_around_iff hfree).2 (.inr hrs), hfree, hoccurs⟩

/-- Pieces are cut at the placeholders of one index. -/
theorem holes_induction {motive : List Piece → Prop} (index : Nat)
    (free : ∀ ps, .hole index ∉ ps → motive ps)
    (hole : ∀ qs rs, .hole index ∉ qs → motive rs → motive (qs ++ .hole index :: rs))
    (ps : List Piece) : motive ps := by
  by_cases hmem : .hole index ∈ ps
  · obtain ⟨qs, rs, hps, hqs⟩ := List.eq_append_cons_of_mem hmem
    rw [hps]
    exact hole qs rs hqs (holes_induction index free hole rs)
  · exact free ps hmem
  termination_by ps.length
  decreasing_by rw [hps, List.length_append, List.length_cons]; omega

theorem spelled_next (args : List String) (qs rs : List Piece) :
    spelled args (qs ++ .hole args.length :: rs) =
      spelled args qs ++ (placeholder args.length ++ spelled args rs) := by
  rw [spelled_append, spelled_cons, filled_next]

theorem spelled_concat_next (arg : String) (hqs : .hole args.length ∉ qs) (rs : List Piece) :
    spelled (args ++ [arg]) (qs ++ .hole args.length :: rs) =
      spelled args qs ++ (arg.toList ++ spelled (args ++ [arg]) rs) := by
  rw [spelled_append, spelled_cons, filled_concat, spelled_concat_of_free hqs]

theorem replaceAll_placeholder (index : Nat) (replacement xs ys : List Char) :
    replaceAll (placeholder index) replacement (xs ++ (placeholder index ++ ys)) =
      replaceAll (placeholder index) replacement xs ++
        (replacement ++ replaceAll (placeholder index) replacement ys) := by
  rw [placeholder_eq]
  exact replaceAll_around (open_not_mem index) replacement xs ys

theorem length_replaceAll_placeholder (index : Nat) (replacement text : List Char) :
    ∃ count, (replaceAll (placeholder index) replacement text).length +
      count * (placeholder index).length = text.length + count * replacement.length := by
  rw [placeholder_eq]
  exact length_replaceAll _ _ replacement text

/-- What another argument brings along changes the length as the placeholders of the template do. -/
theorem length_spelled (args : List String) (arg : String) (ps : List Piece) :
    ∃ count, (replaceAll (placeholder args.length) arg.toList (spelled args ps)).length +
        count * (placeholder args.length).length =
      (spelled (args ++ [arg]) ps).length + count * arg.toList.length := by
  induction ps using holes_induction args.length with
  | free ps hfree =>
    rw [spelled_concat_of_free hfree]
    exact length_replaceAll_placeholder _ _ _
  | hole qs rs hqs ih =>
    obtain ⟨before, hbefore⟩ :=
      length_replaceAll_placeholder args.length arg.toList (spelled args qs)
    obtain ⟨behind, hbehind⟩ := ih
    refine ⟨before + behind, ?_⟩
    rw [spelled_next, spelled_concat_next arg hqs, replaceAll_placeholder]
    simp only [List.length_append, Nat.add_mul]
    omega

/-- Filling in one more argument replaces its placeholders in the template and nothing else, just if
there is no placeholder for it that another argument has brought along, or the argument is the
placeholder. -/
theorem replaceAll_spelled_iff (args : List String) (arg : String) (ps : List Piece) :
    replaceAll (placeholder args.length) arg.toList (spelled args ps) =
        spelled (args ++ [arg]) ps ↔
      arg.toList = placeholder args.length ∨ ¬Arises args ps := by
  induction ps using holes_induction args.length with
  | free ps hfree =>
    rw [spelled_concat_of_free hfree, arises_of_free hfree, placeholder_eq]
    exact replaceAll_eq_self_iff (open_not_mem _)
  | hole qs rs hqs ih =>
    have hfront : replaceAll (placeholder args.length) arg.toList (spelled args qs) =
        spelled args qs ↔ arg.toList = placeholder args.length ∨ ¬Arises args qs := by
      rw [arises_of_free hqs, placeholder_eq]
      exact replaceAll_eq_self_iff (open_not_mem _)
    have hboth : replaceAll (placeholder args.length) arg.toList
          (spelled args (qs ++ .hole args.length :: rs)) =
          spelled (args ++ [arg]) (qs ++ .hole args.length :: rs) ↔
        replaceAll (placeholder args.length) arg.toList (spelled args qs) = spelled args qs ∧
        replaceAll (placeholder args.length) arg.toList (spelled args rs) =
          spelled (args ++ [arg]) rs := by
      rw [spelled_next, spelled_concat_next arg hqs, replaceAll_placeholder]
      constructor
      · intro h
        obtain ⟨before, hbefore⟩ :=
          length_replaceAll_placeholder args.length arg.toList (spelled args qs)
        obtain ⟨behind, hbehind⟩ := length_spelled args arg rs
        have hsep : arg.toList.length + 0 * (placeholder args.length).length =
            arg.toList.length + 0 * arg.toList.length := by omega
        obtain ⟨hfirst, -, hrest⟩ := append_both_inj h hbefore hsep hbehind
        exact ⟨hfirst, hrest⟩
      · rintro ⟨hqs, hrs⟩
        rw [hqs, hrs]
    rw [hboth, hfront, ih, arises_around, ← or_and_left, not_or]

/-! ## One argument after another -/

theorem fillFrom_concat (index : Nat) (text : List Char) (args : List String) (arg : String) :
    fillFrom index text (args ++ [arg]) =
      replaceAll (placeholder (index + args.length)) arg.toList (fillFrom index text args) := by
  induction args generalizing index text with
  | nil => rfl
  | cons first args ih =>
    rw [List.cons_append, fillFrom, fillFrom, ih, List.length_cons]
    congr 2
    omega

theorem fillAtOnce_nil (template : String) : fillAtOnce template [] = template := by
  rw [fillAtOnce, spelled_pieces, String.ofList_toList]

theorem fill_nil (template : String) : fill template [] = template := String.ofList_toList

/-- If all arguments before are verbatim, one more argument keeps them so just if it finds no other
placeholders than those of the template. -/
theorem fill_concat_iff {template : String} (h : fill template args = fillAtOnce template args)
    (arg : String) :
    fill template (args ++ [arg]) = fillAtOnce template (args ++ [arg]) ↔
      arg.toList = placeholder args.length ∨ ¬Arises args (pieces template.toList) := by
  have hbefore : fillFrom 0 template.toList args = spelled args (pieces template.toList) :=
    String.ofList_injective h
  rw [← replaceAll_spelled_iff, ← hbefore, fill, fillAtOnce, fillFrom_concat, Nat.zero_add]
  exact ⟨fun heq => String.ofList_injective heq, congrArg String.ofList⟩

/-- The arguments are verbatim in all stages of filling a template just if in none of them there is
another placeholder for the next argument than those of the template. -/
theorem fill_stages_iff (template : String) (args : List String) :
    (∀ before, before <+: args → fill template before = fillAtOnce template before) ↔
      ∀ before arg, before ++ [arg] <+: args →
        arg.toList = placeholder before.length ∨ ¬Arises before (pieces template.toList) := by
  induction args using List.reverseRecOn with
  | nil =>
    constructor
    · rintro - before arg hbefore
      exact absurd (List.prefix_nil.1 hbefore) (List.concat_ne_nil arg before)
    · rintro - before hbefore
      rw [List.prefix_nil.1 hbefore, fill_nil, fillAtOnce_nil]
  | append_singleton args last ih =>
    constructor
    · intro hstages before arg hbefore
      have hfirst : before <+: args ++ [last] := (List.prefix_append _ _).trans hbefore
      exact (fill_concat_iff (hstages before hfirst) arg).1 (hstages _ hbefore)
    · intro hfree before hbefore
      have hstages := ih.2 fun before arg h => hfree before arg (h.trans (List.prefix_append _ _))
      rcases List.prefix_concat_iff.1 hbefore with rfl | hfirst
      · apply (fill_concat_iff (hstages args (List.prefix_refl args)) last).2
        exact hfree args last (List.prefix_refl _)
      · exact hstages before hfirst

/-! ## Up to two arguments -/

theorem placeholder_inj {i j : Nat} (hi : placeholder i <+: text) (hj : placeholder j <+: text) :
    i = j := by
  rw [← holeAt?_eq_some_iff] at hi hj
  exact Option.some.inj (hi.symm.trans hj)

/-- The first argument finds the placeholders of the template only. -/
theorem replaceAll_first (arg : String) (text : List Char) :
    replaceAll (placeholder 0) arg.toList text = spelled [arg] (pieces text) := by
  induction text using pieces_induction with
  | nil =>
    rw [replaceAll, pieces]
    rfl
  | hole index ys ih =>
    rw [pieces_placeholder, spelled_cons, ← ih]
    cases index with
    | zero =>
      rw [placeholder_eq]
      exact replaceAll_pattern _ _ _ _
    | succ index =>
      have hhere : ¬placeholder 0 <+: placeholder (index + 1) ++ ys := fun hbegins =>
        absurd (placeholder_inj hbegins (List.prefix_append _ _)) (Nat.succ_ne_zero index).symm
      rw [placeholder_eq, placeholder_eq, List.cons_append] at hhere
      simp only [Piece.filled, List.getElem?_cons_succ, List.getElem?_nil]
      rw [placeholder_eq, placeholder_eq, List.cons_append, replaceAll_cons hhere,
        replaceAll_append_of_not_mem (open_not_mem _), List.cons_append]
  | char c text hfree ih =>
    rw [pieces_char hfree, spelled_cons, ← ih]
    have hhere := hfree 0
    rw [placeholder_eq] at hhere ⊢
    exact replaceAll_cons hhere

theorem fill_singleton (template arg : String) :
    fill template [arg] = fillAtOnce template [arg] := by
  rw [fill, fillAtOnce, ← replaceAll_first]
  rfl

theorem fill_pair_iff (template first second : String) :
    fill template [first, second] = fillAtOnce template [first, second] ↔
      second.toList = placeholder 1 ∨ ¬Arises [first] (pieces template.toList) :=
  fill_concat_iff (fill_singleton template first) second

/-! ## Templates with each placeholder once -/

def Piece.index? : Piece → Option Nat
  | .char _ => none
  | .hole index => some index

/-- The indices of the placeholders, in their order. -/
def holes (ps : List Piece) : List Nat := ps.filterMap Piece.index?

/-- The places of so many arguments, in their order, in a text without other braces. -/
def Regular (count : Nat) (ps : List Piece) : Prop :=
  holes ps = List.range count ∧ ∀ p ∈ ps, p ≠ .char '{' ∧ p ≠ .char '}'

instance (count : Nat) (ps : List Piece) : Decidable (Regular count ps) :=
  inferInstanceAs (Decidable (_ ∧ _))

theorem regular_ofList {count : Nat} (h : Regular count (pieces text)) :
    Regular count (pieces (String.ofList text).toList) := by
  rwa [String.toList_ofList]

theorem not_mem_spelled {c : Char} (hps : ∀ p ∈ ps, p.index? = none) (hc : ∀ p ∈ ps, p ≠ .char c)
    (args : List String) : c ∉ spelled args ps := by
  intro hmem
  obtain ⟨p, hp, hcp⟩ := List.mem_flatMap.1 hmem
  cases p with
  | char d => exact hc _ hp (congrArg Piece.char (List.mem_singleton.1 hcp).symm)
  | hole index => cases hps _ hp

/-- In a template with a place for each of two arguments, the first one brings along a placeholder
for the second just if it holds one. -/
theorem arises_pair_iff (h : Regular 2 ps) (first : String) :
    Arises [first] ps ↔ placeholder 1 <:+: first.toList := by
  obtain ⟨htwo, hbraces⟩ := h
  obtain ⟨before, _ | i, rest, rfl, hbefore, hi, hrest⟩ := List.filterMap_eq_cons_iff.1 htwo
  · cases hi
  obtain ⟨between, _ | j, behind, rfl, hbetween, hj, hbehind⟩ := List.filterMap_eq_cons_iff.1 hrest
  · cases hj
  cases hi
  cases hj
  have hplain := List.filterMap_eq_nil_iff.1 hbehind
  simp only [List.forall_mem_append, List.forall_mem_cons] at hbraces
  obtain ⟨hbracesBefore, -, hbracesBetween, -, hbracesBehind⟩ := hbraces
  have hopen : '{' ∉ spelled [first] before :=
    not_mem_spelled hbefore (fun p hp => (hbracesBefore p hp).1) _
  have hclose : '}' ∉ spelled [first] between :=
    not_mem_spelled hbetween (fun p hp => (hbracesBetween p hp).2) _
  have hopenBehind : '{' ∉ spelled [first] behind :=
    not_mem_spelled hplain (fun p hp => (hbracesBehind p hp).1) _
  have hspelled : spelled [first] (before ++ .hole 0 :: between) =
      spelled [first] before ++ (first.toList ++ spelled [first] between) := by
    rw [spelled_append, spelled_cons]
    rfl
  have hfront : .hole [first].length ∉ before ++ .hole 0 :: between := by
    intro hmem
    rcases List.mem_append.1 hmem with hmem | hmem
    · cases hbefore _ hmem
    · rcases List.mem_cons.1 hmem with heq | hmem
      · cases heq
      · cases hbetween _ hmem
  have hback : ¬Arises [first] behind := by
    rintro ⟨stretch, hstretch, -, hoccurs⟩
    rw [placeholder_eq] at hoccurs
    exact hopenBehind ((hoccurs.trans (hstretch.flatMap _)).subset List.mem_cons_self)
  calc Arises [first] (before ++ .hole 0 :: (between ++ .hole 1 :: behind))
      ↔ Arises [first] ((before ++ .hole 0 :: between) ++ .hole [first].length :: behind) := by
        rw [List.append_assoc, List.cons_append]
        rfl
    _ ↔ placeholder 1 <:+: spelled [first] (before ++ .hole 0 :: between) := by
        rw [arises_around, or_iff_left hback, arises_of_free hfront]
        rfl
    _ ↔ placeholder 1 <:+: first.toList := by
        rw [hspelled, placeholder_eq]
        exact infix_between_iff hopen hclose

end Text

/-! ## The reports of errors -/

namespace Render.RenderError

open Text

/-- The message that reports an error, and what it mentions. -/
def mentions : RenderError → Message × List String
  | .unsupported refusal target kind _ => (refusal.message, refusal.arguments target kind)
  | .desync expected found _ => (.desync, [expected, found])
  | .missingBinding name _ => (.bindingMissing, [name])
  | .output => (.outputFailed, [])

theorem report_eq (e : RenderError) : e.report = fill e.mentions.1.template e.mentions.2 := by
  cases e <;> rfl

/-- The template of a report has a place for each text that the report mentions. -/
theorem mentions_regular (e : RenderError) :
    Regular e.mentions.2.length (pieces e.mentions.1.template.toList) := by
  cases e with
  | unsupported refusal target kind span =>
    cases refusal <;> simp only [mentions, Refusal.arguments, List.length_cons, List.length_nil] <;>
      exact regular_ofList (by decide +kernel)
  | _ =>
    simp only [mentions, List.length_cons, List.length_nil]
    exact regular_ofList (by decide +kernel)

theorem mentions_length_le (e : RenderError) : e.mentions.2.length ≤ 2 := by
  cases e with
  | unsupported refusal target kind span =>
    cases refusal <;> simp only [mentions, Refusal.arguments, List.length_cons, List.length_nil] <;>
      omega
  | _ =>
    simp only [mentions, List.length_cons, List.length_nil]
    omega

/-- A report is verbatim just if the first of two texts that it mentions does not hold the
placeholder of the second. -/
theorem report_verbatim_iff (e : RenderError) :
    e.report = fillAtOnce e.mentions.1.template e.mentions.2 ↔
      ∀ first second, e.mentions.2 = [first, second] →
        second.toList = placeholder 1 ∨ ¬placeholder 1 <:+: first.toList := by
  have hregular := e.mentions_regular
  have hle := e.mentions_length_le
  rw [report_eq]
  rcases hargs : e.mentions.2 with - | ⟨first, - | ⟨second, - | ⟨third, args⟩⟩⟩
  · refine iff_of_true ?_ nofun
    rw [fill_nil, fillAtOnce_nil]
  · exact iff_of_true (fill_singleton _ _) nofun
  · rw [hargs] at hregular
    rw [fill_pair_iff, arises_pair_iff hregular]
    constructor
    · rintro h _ _ heq
      cases heq
      exact h
    · intro h
      exact h first second rfl
  · rw [hargs, List.length_cons, List.length_cons, List.length_cons] at hle
    omega

end Render.RenderError

/-! ## Verbatim messages -/

/-- **A message quotes its arguments verbatim just if none of them brings along a placeholder for a
later one.** The text is that of all arguments filled in at once, stage by stage, as long as the
placeholder of each argument stands nowhere else than in the template, or is the argument itself. So
one argument is always verbatim, two are if the first one does not make a placeholder for the
second, and the report of an error is if the first text that it mentions does not hold that
placeholder. -/
theorem Text.fill_verbatim_iff (template : String) (args : List String) :
    ((∀ before, before <+: args → fill template before = fillAtOnce template before) ↔
      ∀ before arg, before ++ [arg] <+: args →
        arg.toList = placeholder before.length ∨ ¬Arises before (pieces template.toList)) ∧
    (∀ arg, fill template [arg] = fillAtOnce template [arg]) ∧
    (∀ first second, fill template [first, second] = fillAtOnce template [first, second] ↔
      second.toList = placeholder 1 ∨ ¬Arises [first] (pieces template.toList)) ∧
    ∀ e : RenderError, e.report = fillAtOnce e.mentions.1.template e.mentions.2 ↔
      ∀ first second, e.mentions.2 = [first, second] →
        second.toList = placeholder 1 ∨ ¬placeholder 1 <:+: first.toList :=
  ⟨fill_stages_iff template args, fill_singleton template, fill_pair_iff template,
    RenderError.report_verbatim_iff⟩

/-- The report of a literal that holds a placeholder does not show the literal. -/
theorem Text.fill_not_verbatim :
    ¬∀ (template : String) (args : List String), fill template args = fillAtOnce template args := by
  intro hverbatim
  have hregular : Regular 2 (pieces Message.noEquivalent.template.toList) :=
    regular_ofList (by decide +kernel)
  have hholds : placeholder 1 <:+: "\"\x7b1\x7d\"".toList := ⟨['"'], ['"'], by decide⟩
  rcases (fill_pair_iff _ "\"\x7b1\x7d\"" "Swift").1 (hverbatim _ _) with hself | hfree
  · revert hself
    decide
  · exact hfree ((arises_pair_iff hregular _).2 hholds)

example : Message.noEquivalent.text ["\"\x7b1\x7d\"", "Swift"] =
    "'\"Swift\"' has no equivalent in Swift." := by
  decide +kernel

end Lockstep
