/-!
# Byte lengths

Positions in a source text are byte offsets into its UTF-8 form, while texts are walked character
by character. This file converts between the two.

- `byteLength`: the number of bytes a list of characters takes up.
- `charsIn?`: how many leading characters take up exactly a given number of bytes.
-/

namespace Lockstep.Text

/-- The number of bytes that the characters take up in UTF-8. -/
def byteLength (cs : List Char) : Nat := cs.foldr (fun c n => c.utf8Size + n) 0

@[simp] theorem byteLength_nil : byteLength [] = 0 := rfl

@[simp] theorem byteLength_cons (c : Char) (cs : List Char) :
    byteLength (c :: cs) = c.utf8Size + byteLength cs := rfl

@[simp] theorem byteLength_append (xs ys : List Char) :
    byteLength (xs ++ ys) = byteLength xs + byteLength ys := by
  induction xs with
  | nil => exact (Nat.zero_add _).symm
  | cons c cs ih => simp [ih, Nat.add_assoc]

@[simp] theorem byteLength_reverse (cs : List Char) :
    byteLength cs.reverse = byteLength cs := by
  induction cs with
  | nil => rfl
  | cons c cs ih => simp [ih, Nat.add_comm]

theorem byteLength_take_add_drop (n : Nat) (cs : List Char) :
    byteLength (cs.take n) + byteLength (cs.drop n) = byteLength cs := by
  rw [← byteLength_append, List.take_append_drop]

/-- How many leading characters take up exactly `n` bytes, counted on from `k`; nothing if `n`
falls inside a character or beyond the end. -/
def countChars? : List Char → (n k : Nat) → Option Nat
  | _, 0, k => some k
  | [], _ + 1, _ => none
  | c :: cs, n + 1, k =>
    if c.utf8Size ≤ n + 1 then countChars? cs (n + 1 - c.utf8Size) (k + 1) else none

/-- How many leading characters take up exactly `n` bytes; nothing if `n` falls inside a
character or beyond the end. -/
def charsIn? (cs : List Char) (n : Nat) : Option Nat := countChars? cs n 0

theorem countChars?_eq_some {cs : List Char} {n k m : Nat} (h : countChars? cs n k = some m) :
    k ≤ m ∧ m - k ≤ cs.length ∧ byteLength (cs.take (m - k)) = n := by
  induction cs generalizing n k with
  | nil => cases n <;> simp_all [countChars?]
  | cons c cs ih =>
    cases n with
    | zero => simp_all [countChars?]
    | succ n =>
      by_cases hc : c.utf8Size ≤ n + 1
      · simp only [countChars?, hc, if_true] at h
        obtain ⟨hk, hlen, hbytes⟩ := ih h
        obtain ⟨d, rfl⟩ : ∃ d, m = k + 1 + d := ⟨m - (k + 1), by omega⟩
        have h1 : k + 1 + d - k = d + 1 := by omega
        have h2 : k + 1 + d - (k + 1) = d := by omega
        rw [h2] at hlen hbytes
        rw [h1]
        refine ⟨by omega, by simpa using hlen, ?_⟩
        simp only [List.take_succ_cons, byteLength_cons, hbytes]
        omega
      · simp [countChars?, hc] at h

/-- A cut found by `charsIn?` lies inside the text and takes up the bytes asked for. -/
theorem charsIn?_eq_some {cs : List Char} {n k : Nat} (h : charsIn? cs n = some k) :
    k ≤ cs.length ∧ byteLength (cs.take k) = n := by
  have := countChars?_eq_some h
  simpa using this.2

theorem countChars?_byteLength (xs ys : List Char) (k : Nat) :
    countChars? (xs ++ ys) (byteLength xs) k = some (k + xs.length) := by
  induction xs generalizing k with
  | nil => cases ys <;> simp [countChars?]
  | cons c xs ih =>
    have hpos := Char.utf8Size_pos c
    obtain ⟨n, hn⟩ : ∃ n, c.utf8Size + byteLength xs = n + 1 := ⟨_, (Nat.succ_pred (by omega)).symm⟩
    simp only [List.cons_append, byteLength_cons, hn, countChars?]
    rw [if_pos (by omega), show n + 1 - c.utf8Size = byteLength xs by omega, ih]
    simp; omega

/-- Every cut at a character boundary is found. -/
theorem charsIn?_byteLength (xs ys : List Char) :
    charsIn? (xs ++ ys) (byteLength xs) = some xs.length := by
  simpa [charsIn?] using countChars?_byteLength xs ys 0

end Lockstep.Text
