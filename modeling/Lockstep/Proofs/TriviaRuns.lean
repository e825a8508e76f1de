import Lockstep.Source.Trivia

/-!
# Whole runs of trivia

`Trivia.lead` counts characters. Here it is tied to the grammar: what it passes is a sequence of
whole runs, each as it is read where it stands (`runs_lead`), and where it stops without a limit no
run begins (`next_drop_lead`). Conversely it passes every such sequence (`lead_append`).
-/

namespace Lockstep.Source.Trivia

open Text

/-- A text of whole runs, each as it is read where it stands; `rest` is what comes after them. -/
inductive Runs : List Char → List Char → Prop where
  | nil : Runs [] rest
  | cons {run text rest : List Char} : next (run ++ (text ++ rest)) = .run kind run.length →
      Runs text rest → Runs (run ++ text) rest

variable {cs text text' rest : List Char}

namespace Runs

theorem single {run : List Char} (h : next (run ++ rest) = .run kind run.length) :
    Runs run rest := by
  have hrun : Runs (run ++ []) rest := .cons h .nil
  rwa [List.append_nil] at hrun

theorem append (h : Runs text (text' ++ rest)) (h' : Runs text' rest) :
    Runs (text ++ text') rest := by
  generalize hr : text' ++ rest = r at h
  induction h with
  | nil => exact h'
  | cons hrun _ ih =>
    subst hr
    rw [List.append_assoc]
    exact cons (by rwa [List.append_assoc]) (ih rfl)

end Runs

theorem next_of_isBlank {c : Char} (h : isBlank c = true) :
    next (c :: rest) = .run .blanks (1 + (rest.takeWhile isBlank).length) := by
  have hlf : c ≠ '\n' := fun e => by subst e; cases h
  have hcr : c ≠ '\r' := fun e => by subst e; cases h
  have hslash : c ≠ '/' := fun e => by subst e; cases h
  unfold next
  split <;> simp_all

/-- A run at the head of a text, split off. -/
theorem take_run (h : next cs = .run kind n) :
    next (cs.take n ++ cs.drop n) = .run kind (cs.take n).length := by
  have hn := (next_run_le h).2
  rw [List.take_append_drop, List.length_take, Nat.min_eq_left hn, h]

/-! ## Taking runs away -/

theorem Runs.next_ne_unclosed (h : Runs text rest) (hrest : next rest = .absent) :
    next (text ++ rest) ≠ .unclosed := by
  cases h with
  | nil => exact fun hopen => nomatch hrest.symm.trans hopen
  | cons hrun _ =>
    rw [List.append_assoc, hrun]
    exact nofun

/-- A run that whole runs begin with is one of them, if what comes after them does not begin with
such a run. -/
theorem Runs.split_run (h : Runs text rest) (hrest : next rest ≠ .run kind n)
    (hrun : next (text ++ rest) = .run kind n) :
    ∃ run text', text = run ++ text' ∧ run.length = n ∧ Runs text' rest := by
  cases h with
  | nil => exact absurd hrun hrest
  | @cons _ run text _ hhead htail =>
    rw [List.append_assoc, hhead] at hrun
    cases hrun
    exact ⟨run, text, rfl, rfl, htail⟩

/-- What is left of whole runs without the run at their head. -/
theorem Runs.drop_run (h : Runs text rest) (hrest : next rest = .absent)
    (hrun : next (text ++ rest) = .run kind n) :
    ∃ text', (text ++ rest).drop n = text' ++ rest ∧ Runs text' rest := by
  obtain ⟨run, text', rfl, rfl, htail⟩ := h.split_run (by rw [hrest]; exact nofun) hrun
  exact ⟨text', by rw [List.append_assoc, List.drop_left], htail⟩

/-- Whole runs begin with all the blanks at the head of a text, if no blanks come after them. -/
theorem Runs.split_blanks (h : Runs text rest) (hrest : ∀ n, next rest ≠ .run .blanks n) :
    ∃ text', text = (text ++ rest).takeWhile isBlank ++ text' ∧ Runs text' rest := by
  cases hcs : text ++ rest with
  | nil => exact ⟨text, rfl, h⟩
  | cons c cs =>
    by_cases hc : isBlank c = true
    · obtain ⟨run, text', rfl, hlen, htail⟩ := h.split_run (hrest _) (hcs ▸ next_of_isBlank hc)
      have hblanks := List.prefix_iff_eq_take.1 (List.takeWhile_prefix isBlank (l := c :: cs))
      rw [List.takeWhile_cons_of_pos hc, List.length_cons, Nat.add_comm, ← hlen, ← hcs,
        List.append_assoc, List.take_left] at hblanks
      exact ⟨text', by rw [List.takeWhile_cons_of_pos hc, hblanks], htail⟩
    · rw [List.takeWhile_cons_of_neg hc]
      exact ⟨text, rfl, h⟩

/-- What a line break is. -/
theorem take_lineBreak (h : next cs = .run .lineBreak n) :
    cs.take n ∈ ["\n".toList, "\r".toList, "\r\n".toList] := by
  fun_cases next cs
  all_goals simp_all [next]
  case case1 | case2 | case3 =>
    subst h
    simp

/-- What is left of whole runs without the blanks at their head. -/
theorem Runs.dropWhile_isBlank (h : Runs text rest) (hrest : next rest = .absent) :
    ∃ text', (text ++ rest).dropWhile isBlank = text' ++ rest ∧ Runs text' rest := by
  cases hcs : text ++ rest with
  | nil => exact ⟨text, hcs.symm, h⟩
  | cons c cs =>
    by_cases hc : isBlank c = true
    · obtain ⟨text', hdrop, hruns⟩ := h.drop_run hrest (hcs ▸ next_of_isBlank hc)
      have hcut := @List.drop_left _ (cs.takeWhile isBlank) (cs.dropWhile isBlank)
      rw [List.takeWhile_append_dropWhile] at hcut
      refine ⟨text', ?_, hruns⟩
      rw [← hdrop, hcs, List.dropWhile_cons_of_pos hc, Nat.add_comm, List.drop_succ_cons, hcut]
    · rw [List.dropWhile_cons_of_neg hc]
      exact ⟨text, hcs.symm, h⟩

/-- What a scan does: it passes whole runs and stops before a comment that nothing closes, at the
limit, or where no run begins. -/
theorem leadFrom_spec (passed : Nat) (limit : Option Nat) (cs : List Char) :
    ∃ n, (leadFrom passed limit cs).length = passed + n ∧ Runs (cs.take n) (cs.drop n) ∧
      ((leadFrom passed limit cs).unclosed = false → limit = none →
        next (cs.drop n) = .absent) := by
  fun_induction leadFrom passed limit cs with
  | case1 cs => exact ⟨0, rfl, .nil, fun _ h => nomatch h⟩
  | case2 passed limit cs hlimit kind n hrun ih =>
    obtain ⟨m, hlen, hruns, hend⟩ := ih
    have htake : cs.take (n + m) = cs.take n ++ (cs.drop n).take m := List.take_add
    have hdrop : cs.drop (n + m) = (cs.drop n).drop m := (List.drop_drop).symm
    refine ⟨n + m, by rw [hlen, Nat.add_assoc], ?_, ?_⟩
    · have hhead : next (cs.take n ++ ((cs.drop n).take m ++ (cs.drop n).drop m)) =
          .run kind (cs.take n).length := by
        rw [List.take_append_drop m]
        exact take_run hrun
      rw [htake, hdrop]
      exact .cons hhead hruns
    · intro hopen hnone
      rw [hdrop]
      exact hend hopen (by rw [hnone, Option.map_none])
  | case3 => exact ⟨0, rfl, .nil, fun h => nomatch h⟩
  | case4 passed limit cs _ habsent => exact ⟨0, rfl, .nil, fun _ _ => habsent⟩

theorem runs_lead (limit : Option Nat) (cs : List Char) :
    Runs (cs.take (lead limit cs).length) (cs.drop (lead limit cs).length) := by
  obtain ⟨n, hlen, hruns, _⟩ := leadFrom_spec 0 limit cs
  rw [Nat.zero_add] at hlen
  rw [lead, hlen]
  exact hruns

theorem next_drop_lead (h : (lead none cs).unclosed = false) :
    next (cs.drop (lead none cs).length) = .absent := by
  obtain ⟨n, hlen, _, hend⟩ := leadFrom_spec 0 none cs
  rw [Nat.zero_add] at hlen
  rw [lead, hlen]
  exact hend h rfl

theorem byteLength_pos_of_run {run : List Char}
    (hrun : next (run ++ rest) = .run kind run.length) : 0 < byteLength run := by
  have hlen := (next_run_le hrun).1
  cases run with
  | nil => cases hlen
  | cons c run =>
    rw [byteLength_cons]
    exact Nat.add_pos_left (Char.utf8Size_pos c) _

theorem leadFrom_absent {limit : Option Nat} (habsent : next cs = .absent) (passed : Nat) :
    leadFrom passed limit cs = ⟨passed, false⟩ := by
  rw [leadFrom]
  split
  · rfl
  · split
    · next hrun => rw [habsent] at hrun; cases hrun
    · next hopen => rw [habsent] at hopen; cases hopen
    · rfl

theorem leadFrom_unclosed {limit : Option Nat} (hlimit : limit ≠ some 0)
    (hopen : next cs = .unclosed) (passed : Nat) : leadFrom passed limit cs = ⟨passed, true⟩ := by
  rw [leadFrom, if_neg hlimit]
  split
  · next hrun => rw [hopen] at hrun; cases hrun
  · rfl
  · next habsent => rw [hopen] at habsent; cases habsent

theorem leadFrom_of_run {limit : Option Nat} (hlimit : limit ≠ some 0)
    (hrun : next cs = .run kind n) (passed : Nat) :
    leadFrom passed limit cs =
      leadFrom (passed + n) (limit.map (· - byteLength (cs.take n))) (cs.drop n) := by
  rw [leadFrom, if_neg hlimit]
  split
  · next m hm =>
    rw [hrun] at hm
    cases hm
    rfl
  · next hopen => rw [hrun] at hopen; cases hopen
  · next habsent => rw [hrun] at habsent; cases habsent

/-- A run that begins before the limit is passed. -/
theorem leadFrom_run {run : List Char} {limit : Option Nat} (hlimit : limit ≠ some 0)
    (hrun : next (run ++ rest) = .run kind run.length) (passed : Nat) :
    leadFrom passed limit (run ++ rest) =
      leadFrom (passed + run.length) (limit.map (· - byteLength run)) rest := by
  rw [leadFrom_of_run hlimit hrun, List.drop_left, List.take_left]

/-- What a scan counts on from is added to its length. -/
theorem leadFrom_add (k passed : Nat) (limit : Option Nat) (cs : List Char) :
    leadFrom (k + passed) limit cs =
      ⟨k + (leadFrom passed limit cs).length, (leadFrom passed limit cs).unclosed⟩ := by
  fun_induction leadFrom passed limit cs with
  | case1 => rw [leadFrom, if_pos rfl]
  | case2 passed limit cs hlimit kind n hrun ih =>
    rw [← ih, leadFrom_of_run hlimit hrun, Nat.add_assoc]
  | case3 passed limit cs hlimit hopen => exact leadFrom_unclosed hlimit hopen _
  | case4 passed limit cs hlimit habsent => exact leadFrom_absent habsent _

/-- Whole runs that are not cut off by the limit are passed, up to the limit or to where no run
begins. -/
theorem leadFrom_append {limit : Option Nat} (h : Runs text rest)
    (hlimit : ∀ n ∈ limit, byteLength text ≤ n)
    (hrest : next rest = .absent ∨ limit = some (byteLength text)) (passed : Nat) :
    leadFrom passed limit (text ++ rest) = ⟨passed + text.length, false⟩ := by
  induction h generalizing passed limit with
  | nil =>
    rw [List.nil_append]
    rcases hrest with hrest | rfl
    · exact leadFrom_absent hrest passed
    · rw [leadFrom]
      exact if_pos rfl
  | @cons kind run text rest hrun _ ih =>
    have hpos := byteLength_pos_of_run hrun
    have hne : limit ≠ some 0 := by
      rintro rfl
      have := hlimit 0 rfl
      rw [byteLength_append] at this
      omega
    rw [List.append_assoc, leadFrom_run hne hrun, ih ?_ ?_, List.length_append, Nat.add_assoc]
    · intro n hn
      obtain ⟨m, hm, rfl⟩ := Option.map_eq_some_iff.1 hn
      have := hlimit m hm
      rw [byteLength_append] at this
      omega
    · refine hrest.imp_right fun hlimit => ?_
      rw [hlimit, Option.map_some, byteLength_append, Nat.add_sub_cancel_left]

/-- Whole runs with no run after them are passed as a whole. -/
theorem lead_append (h : Runs text rest) (hrest : next rest = .absent) :
    lead none (text ++ rest) = ⟨text.length, false⟩ := by
  rw [lead, leadFrom_append h (by simp) (.inl hrest), Nat.zero_add]

/-- With a limit they are passed if they do not go beyond it, and if they end there or no run comes
after them. -/
theorem lead_some_append {limit : Nat} (h : Runs text rest) (hlimit : byteLength text ≤ limit)
    (hrest : next rest = .absent ∨ limit = byteLength text) :
    lead (some limit) (text ++ rest) = ⟨text.length, false⟩ := by
  rw [lead, leadFrom_append h _ (hrest.imp_right (congrArg some)), Nat.zero_add]
  rintro _ ⟨⟩
  exact hlimit

end Lockstep.Source.Trivia
