import Lockstep.Text.Bytes
import Lockstep.Text.CharClass

/-!
# Trivia of the Java grammar

White space and comments come in runs: blanks as far as they go, one line break (a carriage return
takes a following line feed with it), a line comment up to its line break, and a block comment up
to the first closing mark after its opening mark.

- `Trivia.next`: the run at the head of a text.
- `Trivia.lead`: how far the runs at the head of a text reach.
-/

namespace Lockstep.Source

open Text

/-- What a run of trivia consists of. -/
inductive TriviaKind where
  | blanks
  | lineBreak
  | lineComment
  | blockComment
  deriving DecidableEq, Repr

/-- What stands at the head of a text. -/
inductive Trivia where
  /-- A run of that kind, so many characters long. -/
  | run (kind : TriviaKind) (length : Nat)
  /-- A block comment that nothing closes. -/
  | unclosed
  /-- Something else, or the end of the text. -/
  | absent
  deriving DecidableEq, Repr

namespace Trivia

/-- How many characters the text takes up to the first closing mark of a block comment. -/
def untilClosed? : List Char → Option Nat
  | '*' :: '/' :: _ => some 2
  | _ :: rest => (untilClosed? rest).map (· + 1)
  | [] => none

/-- The run of trivia at the head of a text. -/
def next : List Char → Trivia
  | '\r' :: '\n' :: _ => .run .lineBreak 2
  | '\r' :: _ => .run .lineBreak 1
  | '\n' :: _ => .run .lineBreak 1
  | '/' :: '/' :: rest => .run .lineComment (2 + (rest.takeWhile (!isLineBreak ·)).length)
  | '/' :: '*' :: rest =>
    match untilClosed? rest with
    | some n => .run .blockComment (2 + n)
    | none => .unclosed
  | c :: rest => if isBlank c then .run .blanks (1 + (rest.takeWhile isBlank).length) else .absent
  | [] => .absent

theorem length_takeWhile_le (p : Char → Bool) (cs : List Char) :
    (cs.takeWhile p).length ≤ cs.length :=
  (List.takeWhile_prefix p).length_le

theorem untilClosed?_le {cs : List Char} {n : Nat} (h : untilClosed? cs = some n) :
    0 < n ∧ n ≤ cs.length := by
  fun_induction untilClosed? cs generalizing n with
  | case1 =>
    cases h
    simp
  | case2 c rest _ ih =>
    obtain ⟨m, hm, rfl⟩ := Option.map_eq_some_iff.1 h
    have := ih hm
    simp only [List.length_cons]
    omega
  | case3 => cases h

/-- A run has at least one character and lies inside the text. -/
theorem next_run_le {cs : List Char} {kind : TriviaKind} {n : Nat} (h : next cs = .run kind n) :
    0 < n ∧ n ≤ cs.length := by
  fun_cases next cs
  all_goals simp_all only [next, Trivia.run.injEq, reduceCtorEq]
  case case1 => obtain ⟨_, rfl⟩ := h; simp
  case case2 => obtain ⟨_, rfl⟩ := h; simp
  case case3 => obtain ⟨_, rfl⟩ := h; simp
  case case4 rest =>
    obtain ⟨_, rfl⟩ := h
    have := length_takeWhile_le (!isLineBreak ·) rest
    simp only [List.length_cons]
    omega
  case case5 rest m hm =>
    obtain ⟨_, rfl⟩ := h
    have := untilClosed?_le hm
    simp only [List.length_cons]
    omega
  case case7 c rest _ _ _ _ _ _ =>
    obtain ⟨_, rfl⟩ := h
    have := length_takeWhile_le isBlank rest
    simp only [List.length_cons]
    omega
  case case8 => simp at h

/-- How far leading trivia reaches. -/
structure Lead where
  /-- The number of characters passed. -/
  length : Nat
  /-- Whether it stopped at a block comment that nothing closes. -/
  unclosed : Bool
  deriving DecidableEq, Repr

/-- Pass runs of trivia, counting on from `passed`. With a limit, no run is begun once that many
bytes have been passed. -/
def leadFrom (passed : Nat) (limit : Option Nat) (cs : List Char) : Lead :=
  if limit = some 0 then ⟨passed, false⟩
  else match _run : next cs with
    | .run _ n =>
      leadFrom (passed + n) (limit.map (· - byteLength (cs.take n))) (cs.drop n)
    | .unclosed => ⟨passed, true⟩
    | .absent => ⟨passed, false⟩
  termination_by cs.length
  decreasing_by
    have := next_run_le _run
    simp only [List.length_drop]
    omega

/-- Pass the runs of trivia at the head of a text. With a limit, no run is begun once that many
bytes have been passed. -/
def lead (limit : Option Nat) (cs : List Char) : Lead := leadFrom 0 limit cs

end Trivia

/-- Whether a text begins with a line break, possibly after blanks. -/
def startsWithLineBreak (cs : List Char) : Bool :=
  match cs.dropWhile isBlank with
  | [] => false
  | c :: _ => isLineBreak c

end Lockstep.Source
