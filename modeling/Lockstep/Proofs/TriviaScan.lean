import Lockstep.Proofs.Gaps
import Lockstep.Proofs.WrittenTrivia

/-!
# What a scan passes

White space and comments are given here by what they consist of, not by how they are read. A scan
passes one run after another, each as long as it can be, and ends where no further one may begin: at
the limit, before a comment that nothing closes, or before something else.

- `TriviaKind.Admits`, `OpensComment`: the grammar.
- `Trivia.next_append_eq_run_iff`, `Trivia.next_eq_unclosed_iff`: the grammar is what is read.
- `Cursor.Scans`: runs that begin before a limit, one after another.
- `Cursor.skipTrivia_exact`: what a scan passes, where it ends and when it fails.
-/

namespace Lockstep.Source

open Text

/-! ## The grammar -/

/-- The mark that closes a block comment. -/
def closingMark : List Char := ['*', '/']

/-- The text is a whole run of trivia of that kind if `rest` comes after it. -/
def TriviaKind.Admits (run rest : List Char) : TriviaKind → Prop
  | .blanks =>
    run ≠ [] ∧ (∀ c ∈ run, c ∈ [' ', '\t', '\x0c']) ∧ ∀ c ∈ rest.head?, c ∉ [' ', '\t', '\x0c']
  | .lineBreak => run = ['\n'] ∨ run = ['\r', '\n'] ∨ run = ['\r'] ∧ rest.head? ≠ some '\n'
  | .lineComment =>
    ∃ body, run = '/' :: '/' :: body ∧ (∀ c ∈ body, c ∉ ['\n', '\r']) ∧
      ∀ c ∈ rest.head?, c ∈ ['\n', '\r']
  | .blockComment =>
    ∃ body, run = '/' :: '*' :: (body ++ closingMark) ∧ ¬closingMark <:+: body ++ ['*']

/-- A run of trivia begins the text. -/
def BeginsRun (cs : List Char) : Prop :=
  ∃ (kind : TriviaKind) (run rest : List Char), cs = run ++ rest ∧ kind.Admits run rest

/-- The text begins with a block comment that nothing closes. -/
def OpensComment (cs : List Char) : Prop :=
  ∃ rest, cs = '/' :: '*' :: rest ∧ ¬closingMark <:+: rest

namespace Trivia

variable {cs body run rest : List Char} {kind : TriviaKind}

theorem isBlank_iff {c : Char} : isBlank c = true ↔ c ∈ [' ', '\t', '\x0c'] := by
  simp [isBlank, or_assoc]

theorem isLineBreak_iff {c : Char} : isLineBreak c = true ↔ c ∈ ['\n', '\r'] := by
  simp [isLineBreak]

theorem closingMark_prefix_cons {c : Char} :
    closingMark <+: c :: cs ↔ c = '*' ∧ cs.head? = some '/' := by
  cases cs with
  | nil => simp [closingMark]
  | cons d cs => simp [closingMark, eq_comm]

theorem untilClosed?_eq_none_iff : untilClosed? cs = none ↔ ¬closingMark <:+: cs := by
  fun_induction untilClosed? cs with
  | case1 rest =>
    exact ⟨fun h => absurd h (Option.some_ne_none _), fun h => absurd ⟨[], rest, rfl⟩ h⟩
  | case2 c rest hmark ih =>
    have hhere : ¬closingMark <+: c :: rest := by
      rw [closingMark_prefix_cons]
      rintro ⟨rfl, hhead⟩
      obtain ⟨tail, rfl⟩ := List.head?_eq_some_iff.1 hhead
      exact hmark tail rfl rfl
    rw [Option.map_eq_none_iff, ih, List.infix_cons_iff, not_or]
    exact ⟨fun h => ⟨hhere, h⟩, And.right⟩
  | case3 => exact ⟨fun _ h => List.cons_ne_nil _ _ (List.infix_nil.1 h), fun _ => rfl⟩

/-- Up to the first closing mark no other one has been met, not even half of it. -/
theorem exists_of_untilClosed? {n : Nat} (h : untilClosed? cs = some n) :
    ∃ body rest, cs = body ++ closingMark ++ rest ∧ n = body.length + 2 ∧
      ¬closingMark <:+: body ++ ['*'] := by
  fun_induction untilClosed? cs generalizing n with
  | case1 rest =>
    cases h
    exact ⟨[], rest, rfl, rfl, by decide⟩
  | case2 c cs hmark ih =>
    obtain ⟨m, hm, rfl⟩ := Option.map_eq_some_iff.1 h
    obtain ⟨body, rest, rfl, rfl, hbody⟩ := ih hm
    refine ⟨c :: body, rest, rfl, rfl, ?_⟩
    rw [List.cons_append, List.infix_cons_iff, not_or, closingMark_prefix_cons]
    refine ⟨?_, hbody⟩
    rintro ⟨rfl, hhead⟩
    cases body with
    | nil => cases hhead
    | cons d body =>
      cases hhead
      exact hmark _ rfl rfl
  | case3 => cases h

theorem untilClosed?_append (h : ¬closingMark <:+: body ++ ['*']) (rest : List Char) :
    untilClosed? (body ++ closingMark ++ rest) = some (body.length + 2) := by
  induction body with
  | nil => rfl
  | cons c body ih =>
    rw [List.cons_append, List.infix_cons_iff, not_or, closingMark_prefix_cons] at h
    obtain ⟨hmark, hbody⟩ := h
    have hnext : c = '*' → (body ++ closingMark ++ rest).head? ≠ some '/' := by
      rintro rfl hhead
      cases body with
      | nil => cases hhead
      | cons d body => exact hmark ⟨rfl, hhead⟩
    rw [List.cons_append, List.cons_append, untilClosed?_cons hnext, ih hbody, Option.map_some,
      List.length_cons, Nat.add_right_comm]

theorem untilClosed?_append_iff : untilClosed? (cs ++ rest) = some cs.length ↔
    ∃ body, cs = body ++ closingMark ∧ ¬closingMark <:+: body ++ ['*'] := by
  constructor
  · intro h
    obtain ⟨body, rest', hcs, hlen, hbody⟩ := exists_of_untilClosed? h
    have hlen : cs.length = (body ++ closingMark).length := by
      rw [hlen, List.length_append]
      rfl
    exact ⟨body, (List.append_inj hcs hlen).1, hbody⟩
  · rintro ⟨body, rfl, hbody⟩
    rw [untilClosed?_append hbody, List.length_append]
    rfl

theorem isRun_iff_admits : IsRun kind run rest ↔ kind.Admits run rest := by
  constructor
  · intro h
    cases h with
    | lineFeed => exact .inl rfl
    | carriageReturn hrest => exact .inr (.inr ⟨rfl, hrest⟩)
    | bothFeeds => exact .inr (.inl rfl)
    | lineComment hbody hrest =>
      refine ⟨_, rfl, fun c hc => ?_, fun c hc => isLineBreak_iff.1 (hrest c hc)⟩
      rw [← isLineBreak_iff, hbody c hc]
      exact Bool.false_ne_true
    | blockComment hclosed =>
      obtain ⟨body, rfl, hbody⟩ := untilClosed?_append_iff.1 hclosed
      exact ⟨body, rfl, hbody⟩
    | blanks hne hrun hrest =>
      refine ⟨hne, fun c hc => isBlank_iff.1 (hrun c hc), fun c hc => ?_⟩
      rw [← isBlank_iff, hrest c hc]
      exact Bool.false_ne_true
  · intro h
    cases kind with
    | blanks =>
      obtain ⟨hne, hrun, hrest⟩ := h
      refine .blanks hne (fun c hc => isBlank_iff.2 (hrun c hc)) fun c hc => ?_
      exact Bool.eq_false_iff.2 fun hblank => hrest c hc (isBlank_iff.1 hblank)
    | lineBreak =>
      rcases h with rfl | rfl | ⟨rfl, hrest⟩
      · exact .lineFeed
      · exact .bothFeeds
      · exact .carriageReturn hrest
    | lineComment =>
      obtain ⟨body, rfl, hbody, hrest⟩ := h
      refine .lineComment (fun c hc => ?_) fun c hc => isLineBreak_iff.2 (hrest c hc)
      exact Bool.eq_false_iff.2 fun hbreak => hbody c hc (isLineBreak_iff.1 hbreak)
    | blockComment =>
      obtain ⟨body, rfl, hbody⟩ := h
      exact .blockComment (untilClosed?_append_iff.2 ⟨body, rfl, hbody⟩)

/-- A run is read where the grammar has one. -/
theorem next_append_eq_run_iff :
    next (run ++ rest) = .run kind run.length ↔ kind.Admits run rest :=
  ⟨fun h => isRun_iff_admits.1 (isRun_of_next h), fun h => (isRun_iff_admits.2 h).next_eq⟩

theorem next_eq_unclosed_iff : next cs = .unclosed ↔ OpensComment cs := by
  constructor
  · intro h
    unfold next at h
    split at h
    case h_5 rest =>
      split at h
      · cases h
      · next hopen => exact ⟨rest, rfl, untilClosed?_eq_none_iff.1 hopen⟩
    case h_6 => split at h <;> cases h
    all_goals cases h
  · rintro ⟨rest, rfl, hopen⟩
    simp only [next, untilClosed?_eq_none_iff.2 hopen]

theorem admits_of_next {n : Nat} (h : next cs = .run kind n) :
    kind.Admits (cs.take n) (cs.drop n) :=
  next_append_eq_run_iff.1 (take_run h)

theorem next_eq_absent_iff : next cs = .absent ↔ ¬BeginsRun cs ∧ ¬OpensComment cs := by
  rw [← next_eq_unclosed_iff]
  constructor
  · refine fun h => ⟨?_, by rw [h]; exact nofun⟩
    rintro ⟨kind, run, rest, rfl, hrun⟩
    rw [next_append_eq_run_iff.2 hrun] at h
    cases h
  · rintro ⟨hrun, hopen⟩
    cases h : next cs with
    | run kind n =>
      exact absurd ⟨kind, _, _, (List.take_append_drop n cs).symm, admits_of_next h⟩ hrun
    | unclosed => exact absurd h hopen
    | absent => rfl

end Trivia

namespace Cursor

/-! ## Scans -/

/-- The cursor has not come as far as the limit. -/
def IsBefore (c : Cursor) (limit : Option Nat) : Prop := ∀ n ∈ limit, c.offset < n

/-- From one place to another there are these runs, one after another, and each begins before the
limit. -/
inductive Scans (limit : Option Nat) : Cursor → List PlacedRun → Cursor → Prop where
  | nil : Scans limit c [] c
  | cons {c mid d : Cursor} {kind : TriviaKind} {text : List Char} {rs : List PlacedRun} :
      c.IsBefore limit → kind.Admits text mid.ahead → c.Passes text mid → Scans limit mid rs d →
      Scans limit c (⟨kind, c.offset, text⟩ :: rs) d

variable {c mid d : Cursor} {limit : Option Nat} {rs : List PlacedRun} {kind : TriviaKind}
  {text : List Char}

theorem isBefore_iff : c.IsBefore limit ↔ limit.map (· - c.offset) ≠ some 0 := by
  cases limit with
  | none => simp [IsBefore]
  | some n => simp [IsBefore, Nat.sub_eq_zero_iff_le]

theorem isBefore_none (c : Cursor) : c.IsBefore none := fun _ h => nomatch h

/-- A scan does one run and goes on from there. -/
theorem skipTrivia_of_run (hbefore : c.IsBefore limit) (hrun : kind.Admits text mid.ahead)
    (hpass : c.Passes text mid) :
    skipTrivia limit c = ((String.ofList text ++ ·) <$> skipTrivia limit) mid := by
  have hlimit : (limit.map (· - c.offset)).map (· - byteLength text) =
      limit.map (· - mid.offset) := by
    rw [Option.map_map, hpass.offset]
    exact congrArg (limit.map ·) (funext fun n => Nat.sub_sub ..)
  have hlead : Trivia.lead (limit.map (· - c.offset)) c.ahead =
      ⟨text.length + (Trivia.lead (limit.map (· - mid.offset)) mid.ahead).length,
        (Trivia.lead (limit.map (· - mid.offset)) mid.ahead).unclosed⟩ := by
    rw [Trivia.lead, hpass.ahead, Trivia.leadFrom_run (isBefore_iff.1 hbefore)
      (Trivia.next_append_eq_run_iff.2 hrun), hlimit, Nat.add_comm, Trivia.leadFrom_add,
      Trivia.lead]
  have hpassed (n : Nat) : c.pass (text.length + n) = mid.pass n := by
    rw [← pass_add, ← hpass.eq_pass]
  simp only [skipTrivia, Functor.map, EStateM.map, hlead, hpassed]
  split
  · rfl
  · rw [hpass.ahead, List.take_length_add_append, String.ofList_append]

/-- At the limit and where no run begins nothing is passed. -/
theorem skipTrivia_of_stop
    (h : ¬c.IsBefore limit ∨ ¬BeginsRun c.ahead ∧ ¬OpensComment c.ahead) :
    skipTrivia limit c = .ok "" c := by
  have hlead : Trivia.lead (limit.map (· - c.offset)) c.ahead = ⟨0, false⟩ := by
    rcases h with hlimit | habsent
    · rw [Trivia.lead, Trivia.leadFrom]
      exact if_pos (Decidable.not_not.1 (mt isBefore_iff.2 hlimit))
    · exact Trivia.leadFrom_absent (Trivia.next_eq_absent_iff.2 habsent) 0
  simp only [skipTrivia, hlead]
  rfl

/-- A comment that nothing closes is reported where it begins. -/
theorem skipTrivia_of_opensComment (hbefore : c.IsBefore limit) (h : OpensComment c.ahead) :
    skipTrivia limit c = .error (.unclosedComment c.offset) c := by
  have hlead : Trivia.lead (limit.map (· - c.offset)) c.ahead = ⟨0, true⟩ :=
    Trivia.leadFrom_unclosed (isBefore_iff.1 hbefore) (Trivia.next_eq_unclosed_iff.2 h) 0
  simp only [skipTrivia, hlead]
  rfl

namespace Scans

theorem runsTo (h : c.Scans limit rs d) : c.RunsTo rs d := by
  induction h with
  | nil => exact .nil
  | cons _ hrun hpass _ ih =>
    exact .cons (hpass.ahead ▸ Trivia.next_append_eq_run_iff.2 hrun) hpass ih

/-- A scan does the runs ahead and goes on after them. -/
theorem skipTrivia_eq (h : c.Scans limit rs d) :
    skipTrivia limit c =
      ((String.ofList (rs.flatMap PlacedRun.text) ++ ·) <$> skipTrivia limit) d := by
  induction h with
  | nil =>
    simp only [Functor.map, EStateM.map, List.flatMap_nil, String.ofList_nil, String.empty_append]
    cases skipTrivia limit _ <;> rfl
  | cons hbefore hrun hpass _ ih =>
    rw [skipTrivia_of_run hbefore hrun hpass]
    simp only [Functor.map, EStateM.map] at ih ⊢
    simp only [ih, List.flatMap_cons, String.ofList_append, String.append_assoc]
    cases skipTrivia limit _ <;> rfl

theorem skipTrivia_ok (h : c.Scans limit rs d)
    (hstop : ¬d.IsBefore limit ∨ ¬BeginsRun d.ahead ∧ ¬OpensComment d.ahead) :
    skipTrivia limit c = .ok (String.ofList (rs.flatMap PlacedRun.text)) d := by
  rw [h.skipTrivia_eq]
  simp only [Functor.map, EStateM.map, skipTrivia_of_stop hstop, String.append_empty]

theorem skipTrivia_error (h : c.Scans limit rs d) (hbefore : d.IsBefore limit)
    (hopens : OpensComment d.ahead) :
    skipTrivia limit c = .error (.unclosedComment d.offset) d := by
  rw [h.skipTrivia_eq]
  simp only [Functor.map, EStateM.map, skipTrivia_of_opensComment hbefore hopens]

/-- From every place there are runs up to where a scan has to end: at the limit, or where no run
begins. By induction on what is ahead, which every run makes shorter. -/
theorem exists_stop (limit : Option Nat) (c : Cursor) :
    ∃ rs d, c.Scans limit rs d ∧ (d.IsBefore limit → ¬BeginsRun d.ahead) := by
  by_cases hrun : c.IsBefore limit ∧ BeginsRun c.ahead
  · obtain ⟨hbefore, kind, run, rest, hahead, hadmits⟩ := hrun
    obtain ⟨hpass, hrest⟩ := passes_of_ahead_eq hahead
    have hpos := (Trivia.next_run_le (Trivia.next_append_eq_run_iff.2 hadmits)).1
    have hlen : c.ahead.length = run.length + (c.pass run.length).ahead.length := by
      rw [hrest, hahead, List.length_append]
    obtain ⟨rs, d, hscans, hend⟩ := exists_stop limit (c.pass run.length)
    exact ⟨_, d, .cons hbefore (hrest ▸ hadmits) hpass hscans, hend⟩
  · exact ⟨[], c, .nil, fun hbefore hbegins => hrun ⟨hbefore, hbegins⟩⟩
termination_by c.ahead.length

theorem of_length_lt {n : Nat} (h : c.Scans none rs d) (hlen : c.length < n) :
    c.Scans (some n) rs d := by
  induction h with
  | nil => exact .nil
  | @cons c mid d kind text rs hbefore hrun hpass _ ih =>
    have hoffset : c.offset < n := Nat.lt_of_le_of_lt (Nat.le_add_right _ _) hlen
    exact .cons (by rintro _ ⟨⟩; exact hoffset) hrun hpass (ih (hpass.length_eq ▸ hlen))

end Scans

/-- A limit past the end of the text is none. -/
theorem skipTrivia_of_length_lt {n : Nat} (h : c.length < n) :
    skipTrivia (some n) c = skipTrivia none c := by
  obtain ⟨rs, d, hscans, hend⟩ := Scans.exists_stop none c
  have hsame : skipTrivia (some n) d = skipTrivia none d := by
    have hbefore : d.IsBefore (some n) := by
      rintro _ ⟨⟩
      exact Nat.lt_of_le_of_lt (Nat.le_add_right _ _) (hscans.runsTo.passes.length_eq ▸ h)
    by_cases hopens : OpensComment d.ahead
    · rw [skipTrivia_of_opensComment hbefore hopens,
        skipTrivia_of_opensComment d.isBefore_none hopens]
    · have hstop := And.intro (hend d.isBefore_none) hopens
      rw [skipTrivia_of_stop (.inr hstop), skipTrivia_of_stop (.inr hstop)]
  rw [hscans.skipTrivia_eq, (hscans.of_length_lt h).skipTrivia_eq]
  simp only [Functor.map, EStateM.map, hsame]

/-- From any character boundary a scan passes whole runs, each of which begins before the limit. It
ends at the limit or where no run begins, or else it fails at a comment that nothing closes, which
it does just if it comes to one before the limit. A further scan passes nothing. In texts of the
size that offsets can count, no limit is the greatest one. -/
theorem skipTrivia_exact (limit : Option Nat) (c : Cursor) :
    (∃ rs d, c.Scans limit rs d ∧
      (skipTrivia limit c = .ok (String.ofList (rs.flatMap PlacedRun.text)) d ∧
          (¬d.IsBefore limit ∨ ¬BeginsRun d.ahead ∧ ¬OpensComment d.ahead) ∧
          skipTrivia limit d = .ok "" d ∨
        skipTrivia limit c = .error (.unclosedComment d.offset) d ∧
          d.IsBefore limit ∧ OpensComment d.ahead ∧
          skipTrivia limit d = .error (.unclosedComment d.offset) d)) ∧
    ((∃ e d, skipTrivia limit c = .error e d) ↔
      ∃ rs d, c.Scans limit rs d ∧ d.IsBefore limit ∧ OpensComment d.ahead) ∧
    (c.length < offsetCount - 1 →
      skipTrivia (some (offsetCount - 1)) c = skipTrivia none c) := by
  obtain ⟨rs, d, hscans, hend⟩ := Scans.exists_stop limit c
  by_cases hopens : d.IsBefore limit ∧ OpensComment d.ahead
  · have hskip := hscans.skipTrivia_error hopens.1 hopens.2
    have hagain := skipTrivia_of_opensComment hopens.1 hopens.2
    exact ⟨⟨rs, d, hscans, .inr ⟨hskip, hopens.1, hopens.2, hagain⟩⟩,
      ⟨fun _ => ⟨rs, d, hscans, hopens⟩, fun _ => ⟨_, _, hskip⟩⟩, skipTrivia_of_length_lt⟩
  · have hstop : ¬d.IsBefore limit ∨ ¬BeginsRun d.ahead ∧ ¬OpensComment d.ahead := by
      by_cases hbefore : d.IsBefore limit
      · exact .inr ⟨hend hbefore, fun h => hopens ⟨hbefore, h⟩⟩
      · exact .inl hbefore
    have hagain := skipTrivia_of_stop hstop
    have hskip := hscans.skipTrivia_ok hstop
    refine ⟨⟨rs, d, hscans, .inl ⟨hskip, hstop, hagain⟩⟩, ⟨?_, ?_⟩, skipTrivia_of_length_lt⟩
    · rintro ⟨e, after, hfail⟩
      rw [hskip] at hfail
      cases hfail
    · rintro ⟨rs', d', hscans', hbefore, hopens⟩
      exact ⟨_, _, hscans'.skipTrivia_error hbefore hopens⟩

/-- The mark that opens the first comment does not close it, and the line break goes past the
limit. -/
theorem skipTrivia_exact_overlap :
    let c := Cursor.ofText "/*/ é */\r\n//*"
    (∃ rs d, c.Scans (some 10) rs d ∧
      skipTrivia (some 10) c = .ok (String.ofList (rs.flatMap PlacedRun.text)) d ∧
      d.offset = 11 ∧ skipTrivia (some 10) d = .ok "" d) ∧
    skipTrivia (some 4294967295) c = skipTrivia none c := by
  intro c
  obtain ⟨⟨rs, d, hscans, h⟩, -, hmax⟩ := skipTrivia_exact (some 10) c
  refine ⟨⟨rs, d, hscans, ?_⟩, hmax (by decide +kernel)⟩
  have hskip : skipTrivia (some 10) c = .ok "/*/ é */\r\n" (c.pass 10) := by
    have hlead : Trivia.lead (some 10) c.ahead = ⟨10, false⟩ := by decide +kernel
    simp only [skipTrivia, Option.map_some, show (10 : Nat) - c.offset = 10 from rfl, hlead]
    rfl
  rcases h with ⟨hok, -, hagain⟩ | ⟨hfail, -⟩
  · refine ⟨hok, ?_, hagain⟩
    rw [hskip] at hok
    injection hok with _ hd
    rw [← hd]
    decide +kernel
  · rw [hskip] at hfail
    cases hfail

end Cursor

end Lockstep.Source
