import Lockstep.Proofs.TriviaRuns
import Lockstep.Proofs.Writing

/-!
# Trivia in the output

A run of trivia that is written is read as a run again: it stays one if the token after it is
replaced (`Trivia.Runs.replace`) and if its lines are indented (`Trivia.next_indented`).

- `Trivia.IsRun`: what a run is made of, and what may follow it.
-/

namespace Lockstep.Source.Trivia

open Output Text

/-! ## What a run is made of -/

/-- The text is a run of that kind if `u` follows it. -/
inductive IsRun : TriviaKind → List Char → (u : List Char) → Prop where
  | lineFeed : IsRun .lineBreak ['\n'] u
  | carriageReturn : u.head? ≠ some '\n' → IsRun .lineBreak ['\r'] u
  | bothFeeds : IsRun .lineBreak ['\r', '\n'] u
  | lineComment : (∀ c ∈ cs, isLineBreak c = false) → (∀ c ∈ u.head?, isLineBreak c = true) →
      IsRun .lineComment ('/' :: '/' :: cs) u
  | blockComment : untilClosed? (cs ++ u) = some cs.length →
      IsRun .blockComment ('/' :: '*' :: cs) u
  | blanks {run : List Char} : run ≠ [] → (∀ c ∈ run, isBlank c = true) →
      (∀ c ∈ u.head?, isBlank c = false) → IsRun .blanks run u

variable {cs run text rest rest' u u' : List Char} {kind : TriviaKind}

/-- Taking characters stops at the end of a text if they all have the property and the next one
has not. -/
theorem length_takeWhile_append_iff {p : Char → Bool} :
    ((cs ++ u).takeWhile p).length = cs.length ↔
      (∀ c ∈ cs, p c = true) ∧ ∀ c ∈ u.head?, p c = false := by
  induction cs with
  | nil =>
    rw [List.nil_append, List.length_nil, List.length_eq_zero_iff]
    cases u with
    | nil => exact ⟨fun _ => ⟨nofun, nofun⟩, fun _ => rfl⟩
    | cons d u =>
      rw [List.takeWhile_cons]
      cases hd : p d <;> simp [hd]
  | cons c cs ih =>
    rw [List.cons_append, List.takeWhile_cons, List.forall_mem_cons]
    cases hc : p c with
    | false => simp
    | true => simpa using ih

theorem IsRun.next_eq (h : IsRun kind run u) : next (run ++ u) = .run kind run.length := by
  cases h with
  | lineFeed => rfl
  | carriageReturn hu =>
    cases u with
    | nil => rfl
    | cons c u =>
      have hc : c ≠ '\n' := fun h => hu (by rw [h]; rfl)
      simp [Trivia.next, hc]
  | bothFeeds => rfl
  | @lineComment cs _ hcs hu =>
    have hlen : ((cs ++ u).takeWhile (!isLineBreak ·)).length = cs.length :=
      length_takeWhile_append_iff.2 ⟨fun c hc => by rw [hcs c hc]; rfl,
        fun c hc => by rw [hu c hc]; rfl⟩
    simp only [List.cons_append, Trivia.next, hlen, List.length_cons]
    rw [Nat.add_comm 2]
  | blockComment hclosed =>
    simp only [List.cons_append, Trivia.next, hclosed, List.length_cons]
    rw [Nat.add_comm 2]
  | blanks hne hrun hu =>
    cases run with
    | nil => exact absurd rfl hne
    | cons c run =>
      have hlen := length_takeWhile_append_iff.2
        ⟨fun d hd => hrun d (List.mem_cons_of_mem c hd), hu⟩
      rw [List.cons_append, next_of_isBlank (hrun c List.mem_cons_self), hlen, List.length_cons,
        Nat.add_comm]

theorem isRun_of_next (h : next (run ++ u) = .run kind run.length) : IsRun kind run u := by
  cases run with
  | nil => exact absurd (next_run_le h).1 (Nat.lt_irrefl 0)
  | cons c run =>
    rw [List.cons_append] at h
    generalize hcs : c :: (run ++ u) = cs at h
    unfold next at h
    split at h
    · obtain ⟨rfl, hrest⟩ := List.cons.inj hcs
      injection h with hkind hlen
      subst hkind
      obtain ⟨d, rfl⟩ := List.length_eq_one_iff.1 (Nat.succ.inj hlen).symm
      cases hrest
      exact .bothFeeds
    · next hne =>
      obtain ⟨rfl, hrest⟩ := List.cons.inj hcs
      injection h with hkind hlen
      subst hkind
      obtain rfl := List.length_eq_zero_iff.1 (Nat.succ.inj hlen).symm
      refine .carriageReturn fun hu => ?_
      obtain ⟨u', rfl⟩ := List.head?_eq_some_iff.1 hu
      exact hne _ hrest.symm
    · obtain ⟨rfl, hrest⟩ := List.cons.inj hcs
      injection h with hkind hlen
      subst hkind
      obtain rfl := List.length_eq_zero_iff.1 (Nat.succ.inj hlen).symm
      exact .lineFeed
    · obtain ⟨rfl, hrest⟩ := List.cons.inj hcs
      injection h with hkind hlen
      subst hkind
      cases run with
      | nil =>
        simp only [List.length_cons, List.length_nil] at hlen
        omega
      | cons d run =>
        obtain ⟨rfl, rfl⟩ := List.cons.inj hrest
        have hlen : ((run ++ u).takeWhile (!isLineBreak ·)).length = run.length :=
          Nat.add_right_cancel ((Nat.add_comm _ 2).trans hlen)
        obtain ⟨hrun, hu⟩ := length_takeWhile_append_iff.1 hlen
        exact .lineComment (fun c hc => by simpa using hrun c hc)
          (fun c hc => by simpa using hu c hc)
    · split at h
      · next m hclosed =>
        obtain ⟨rfl, hrest⟩ := List.cons.inj hcs
        injection h with hkind hlen
        subst hkind
        cases run with
        | nil =>
          have := (untilClosed?_le hclosed).1
          simp only [List.length_cons, List.length_nil] at hlen
          omega
        | cons d run =>
          obtain ⟨rfl, rfl⟩ := List.cons.inj hrest
          have hlen : m = run.length := Nat.add_right_cancel ((Nat.add_comm m 2).trans hlen)
          exact .blockComment (hlen ▸ hclosed)
      · cases h
    · split at h
      · next hblank =>
        obtain ⟨rfl, rfl⟩ := List.cons.inj hcs
        injection h with hkind hlen
        subst hkind
        have hlen : ((run ++ u).takeWhile isBlank).length = run.length :=
          Nat.add_right_cancel ((Nat.add_comm _ 1).trans hlen)
        obtain ⟨hrun, hu⟩ := length_takeWhile_append_iff.1 hlen
        exact .blanks nofun (List.forall_mem_cons.2 ⟨hblank, hrun⟩) hu
      · cases h
    · cases h

/-! ## Indented texts -/

theorem indented_of_noBreak (h : ∀ c ∈ cs, isLineBreak c = false) (w : Nat) :
    indented w false cs = cs ∧ endsLine false cs = false := by
  induction cs with
  | nil => exact ⟨rfl, rfl⟩
  | cons c cs ih =>
    have hc := h c List.mem_cons_self
    obtain ⟨hindent, hend⟩ := ih fun d hd => h d (List.mem_cons_of_mem c hd)
    refine ⟨?_, ?_⟩
    · rw [indented, hc, if_neg Bool.false_ne_true, if_neg Bool.false_ne_true, hindent]
    · rw [endsLine, hc, hend]

theorem head?_indented (w : Nat) (cs : List Char) : (indented w false cs).head? = cs.head? := by
  cases cs with
  | nil => rfl
  | cons c cs =>
    rw [indented]
    split
    · rfl
    · rw [if_neg Bool.false_ne_true]
      rfl

/-- At the start of a line the indentation comes first, if the line has content. -/
theorem indented_true (w : Nat) (cs : List Char) :
    indented w true cs = indented w false cs ∨
      indented w true cs = List.replicate w ' ' ++ indented w false cs := by
  cases cs with
  | nil => exact .inl rfl
  | cons c cs =>
    rw [indented, indented]
    split
    · exact .inl rfl
    · exact .inr rfl

/-! ## Comments -/

theorem untilClosed?_cons {c : Char} (h : c = '*' → cs.head? ≠ some '/') :
    untilClosed? (c :: cs) = (untilClosed? cs).map (· + 1) := by
  rw [untilClosed?]
  intro _ hc hcs
  exact h hc (hcs ▸ rfl)

theorem untilClosed?_blanks (w : Nat) (cs : List Char) :
    untilClosed? (List.replicate w ' ' ++ cs) = (untilClosed? cs).map (· + w) := by
  induction w with
  | zero => simp
  | succ w ih =>
    have hblank : ' ' ≠ '*' := by decide
    rw [List.replicate_succ, List.cons_append, untilClosed?_cons fun h => absurd h hblank, ih,
      Option.map_map]
    congr 1

/-- The indentation before a comment is passed with it. -/
theorem untilClosed?_startLine (h : untilClosed? (indented w false cs ++ u) =
    some (indented w false cs).length) (lineStart : Bool) :
    untilClosed? (indented w lineStart cs ++ u) = some (indented w lineStart cs).length := by
  cases lineStart with
  | false => exact h
  | true =>
    rcases indented_true w cs with heq | heq
    · rw [heq, h]
    · rw [heq, List.append_assoc, untilClosed?_blanks, h, List.length_append,
        List.length_replicate, Option.map_some, Nat.add_comm]

theorem head?_indented_append (hne : cs ≠ []) (w : Nat) (u u' : List Char) :
    (indented w false cs ++ u').head? = (cs ++ u).head? := by
  cases cs with
  | nil => exact absurd rfl hne
  | cons c cs =>
    rw [List.head?_append, head?_indented]
    rfl

/-- A comment is closed by the same mark if its lines are indented, whatever follows it. -/
theorem untilClosed?_indented (h : untilClosed? (cs ++ u) = some cs.length) (w : Nat)
    (lineStart : Bool) (u' : List Char) : untilClosed? (indented w lineStart cs ++ u') =
      some (indented w lineStart cs).length := by
  induction cs generalizing lineStart with
  | nil => exact absurd (untilClosed?_le h).1 (Nat.lt_irrefl 0)
  | cons c cs ih =>
    apply untilClosed?_startLine
    by_cases hmark : c = '*' ∧ (cs ++ u).head? = some '/'
    · obtain ⟨rfl, hhead⟩ := hmark
      obtain ⟨v, hv⟩ := List.head?_eq_some_iff.1 hhead
      rw [List.cons_append, hv] at h
      injection h with hlen
      obtain ⟨d, rfl⟩ := List.length_eq_one_iff.1 (Nat.succ.inj hlen).symm
      obtain ⟨rfl, _⟩ := List.cons.inj hv
      rfl
    · have hne (h : c = '*') : (cs ++ u).head? ≠ some '/' := fun hhead => hmark ⟨h, hhead⟩
      rw [List.cons_append, untilClosed?_cons hne] at h
      obtain ⟨m, hclosed, hlen⟩ := Option.map_eq_some_iff.1 h
      cases hlen
      have htail := ih hclosed
      rw [indented]
      split
      · next hbreak =>
        have hstar (hc : c = '*') : (indented w true cs ++ u').head? ≠ some '/' := by
          rw [hc] at hbreak
          cases hbreak
        rw [List.cons_append, untilClosed?_cons hstar, htail true, List.length_cons,
          Option.map_some]
      · have hcs : cs ≠ [] := List.ne_nil_of_length_pos (untilClosed?_le hclosed).1
        have hstar (hc : c = '*') : (indented w false cs ++ u').head? ≠ some '/' := by
          rw [head?_indented_append hcs w u u']
          exact hne hc
        rw [if_neg Bool.false_ne_true, List.cons_append, untilClosed?_cons hstar, htail false,
          List.length_cons, Option.map_some]

theorem untilClosed?_replace (h : untilClosed? (cs ++ u) = some cs.length) (u' : List Char) :
    untilClosed? (cs ++ u') = some cs.length := by
  have hclosed := untilClosed?_indented h 0 false u'
  rwa [indented_zero] at hclosed

/-! ## Runs that are written -/

theorem isSpace_of_absent (h : next cs = .absent) : ∀ c ∈ cs.head?, isSpace c = false := by
  intro c hc
  obtain ⟨rest, rfl⟩ := List.head?_eq_some_iff.1 hc
  refine Bool.eq_false_iff.2 fun hspace => ?_
  rcases Bool.or_eq_true_iff.1 hspace with hblank | hbreak
  · rw [next_of_isBlank hblank] at h
    cases h
  · simp only [isLineBreak, Bool.or_eq_true, beq_iff_eq] at hbreak
    rcases hbreak with rfl | rfl
    · cases h
    · unfold next at h
      split at h <;> simp_all

/-- No run of trivia begins with a character that is neither white space nor a slash. -/
theorem next_cons_absent {c : Char} (hspace : isSpace c = false) (hslash : c ≠ '/') :
    next (c :: cs) = .absent := by
  simp only [isSpace, isLineBreak, Bool.or_eq_false_iff, beq_eq_false_iff_ne] at hspace
  obtain ⟨hblank, hlf, hcr⟩ := hspace
  unfold next
  split <;> simp_all

/-- A slash is no comment if no other mark follows it. -/
theorem next_slash_absent_iff :
    next ('/' :: cs) = .absent ↔ cs.head? ≠ some '/' ∧ cs.head? ≠ some '*' := by
  cases cs with
  | nil => exact ⟨fun _ => ⟨nofun, nofun⟩, fun _ => rfl⟩
  | cons c cs =>
    by_cases hline : c = '/'
    · subst hline
      exact ⟨nofun, fun h => absurd rfl h.1⟩
    · by_cases hblock : c = '*'
      · subst hblock
        refine ⟨fun h => ?_, fun h => absurd rfl h.2⟩
        simp only [next] at h
        split at h <;> cases h
      · refine ⟨fun _ => ?_, fun _ => ?_⟩
        · rw [List.head?_cons]
          exact ⟨fun h => hline (Option.some.inj h), fun h => hblock (Option.some.inj h)⟩
        · simp [next, hline, hblock, isBlank]

namespace IsRun

/-- What follows a run matters by its first character only. -/
theorem replace (h : IsRun kind run u) (hu : u'.head? = u.head?) : IsRun kind run u' := by
  cases h with
  | lineFeed => exact .lineFeed
  | carriageReturn hne => exact .carriageReturn (hu ▸ hne)
  | bothFeeds => exact .bothFeeds
  | lineComment hcs hbreak => exact .lineComment hcs (hu ▸ hbreak)
  | blockComment hclosed => exact .blockComment (untilClosed?_replace hclosed u')
  | blanks hne hrun hblank => exact .blanks hne hrun (hu ▸ hblank)

/-- The last run before a token is one before any other token. -/
theorem replace_absent (h : IsRun kind run u) (hne : u ≠ []) (hu : next u = .absent)
    (hu' : next u' = .absent) : IsRun kind run u' := by
  have hspace := isSpace_of_absent hu'
  cases h with
  | lineFeed => exact .lineFeed
  | carriageReturn => exact .carriageReturn fun hhead => nomatch hspace '\n' hhead
  | bothFeeds => exact .bothFeeds
  | lineComment _ hbreak =>
    -- no token begins with the line break that ends the comment
    cases u with
    | nil => exact absurd rfl hne
    | cons c u =>
      have hc := isSpace_of_absent hu c rfl
      rw [isSpace, hbreak c rfl, Bool.or_true] at hc
      cases hc
  | blockComment hclosed => exact .blockComment (untilClosed?_replace hclosed u')
  | blanks hrun hblank _ =>
    exact .blanks hrun hblank fun c hc => (Bool.or_eq_false_iff.1 (hspace c hc)).1

theorem indented (h : IsRun kind run u) (w : Nat) :
    IsRun kind (indented w false run) (indented w (endsLine false run) u) := by
  cases h with
  | lineFeed => exact .lineFeed
  | carriageReturn hu =>
    refine .carriageReturn ?_
    change (Output.indented w true u).head? ≠ some '\n'
    rcases indented_true w u with heq | heq
    · rw [heq, head?_indented]
      exact hu
    · cases w with
      | zero =>
        rw [heq, List.replicate_zero, List.nil_append, head?_indented]
        exact hu
      | succ w =>
        rw [heq]
        exact nofun
  | bothFeeds => exact .bothFeeds
  | @lineComment cs _ hcs hu =>
    have hrun : ∀ c ∈ '/' :: '/' :: cs, isLineBreak c = false :=
      List.forall_mem_cons.2 ⟨rfl, List.forall_mem_cons.2 ⟨rfl, hcs⟩⟩
    obtain ⟨hindent, hend⟩ := indented_of_noBreak hrun w
    rw [hindent, hend]
    exact .lineComment hcs (head?_indented w u ▸ hu)
  | blockComment hclosed => exact .blockComment (untilClosed?_indented hclosed w false _)
  | blanks hne hrun hu =>
    obtain ⟨hindent, hend⟩ := indented_of_noBreak
      (fun c hc => isLineBreak_eq_false_of_isBlank (hrun c hc)) w
    rw [hindent, hend]
    exact .blanks hne hrun (head?_indented w u ▸ hu)

end IsRun

/-- A run of trivia remains one if all its lines are indented. -/
theorem next_indented (h : next (run ++ u) = .run kind run.length) (w : Nat) :
    next (indented w false (run ++ u)) = .run kind (indented w false run).length := by
  rw [indented_append]
  exact ((isRun_of_next h).indented w).next_eq

theorem next_indented_absent (h : next cs = .absent) (w : Nat) :
    next (indented w false cs) = .absent := by
  cases cs with
  | nil => rfl
  | cons c cs =>
    have hspace := isSpace_of_absent h c rfl
    rw [indented, (Bool.or_eq_false_iff.1 hspace).2, if_neg Bool.false_ne_true,
      if_neg Bool.false_ne_true]
    by_cases hslash : c = '/'
    · subst hslash
      rw [next_slash_absent_iff] at h
      rwa [next_slash_absent_iff, head?_indented]
    · exact next_cons_absent hspace hslash

/-- Trivia before a token are trivia before any other token. -/
theorem Runs.replace (h : Runs text rest) (hne : rest ≠ []) (hrest : next rest = .absent)
    (hrest' : next rest' = .absent) : Runs text rest' := by
  induction h with
  | nil => exact .nil
  | @cons kind run text rest hrun _ ih =>
    have hrun' : IsRun kind run (text ++ rest') := by
      cases text with
      | nil => exact (isRun_of_next hrun).replace_absent hne hrest hrest'
      | cons c text => exact (isRun_of_next hrun).replace rfl
    exact .cons hrun'.next_eq (ih hne hrest)

end Lockstep.Source.Trivia
