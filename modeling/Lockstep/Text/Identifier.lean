import Lockstep.Text.IdentifierRanges
import Lockstep.Text.RangeTable
import Lockstep.Text.Split

/-!
# Java identifiers

An identifier starts with a dollar sign, an underscore or a character of `XID_Start`, and goes on
with dollar signs and characters of `XID_Continue` (which holds the underscore). A dotted name is a
list of identifiers with a full stop between each two.
-/

namespace Lockstep.Text

/-- Characters of `XID_Start`. -/
def isXidStart (c : Char) : Bool :=
  if c.val < 128 then c.isAlpha else inRanges xidStartRanges c.toNat

/-- Characters of `XID_Continue`. -/
def isXidContinue (c : Char) : Bool :=
  if c.val < 128 then c.isAlphanum || c == '_'
  else inRanges xidStartRanges c.toNat || inRanges xidContinueOnlyRanges c.toNat

def isIdentifierStart (c : Char) : Bool := c == '$' || c == '_' || isXidStart c

def isIdentifierPart (c : Char) : Bool := c == '$' || isXidContinue c

/-- Whether the characters are one identifier. -/
def isIdentifier : List Char → Bool
  | [] => false
  | c :: rest => isIdentifierStart c && rest.all isIdentifierPart

/-- Whether a text is a list of identifiers with full stops between them. -/
def isDottedName (name : String) : Bool := (splitAtChar '.' name.toList).all isIdentifier

/-- Whatever starts an identifier may go on with it. -/
theorem isIdentifierPart_of_isIdentifierStart {c : Char} (h : isIdentifierStart c = true) :
    isIdentifierPart c = true := by
  simp only [isIdentifierStart, isIdentifierPart, isXidStart, isXidContinue, Bool.or_eq_true,
    beq_iff_eq] at h ⊢
  rcases h with (h | h) | h
  · exact .inl h
  · subst h; exact .inr (by decide)
  · split at h <;> rename_i hc <;> simp only [hc, if_true, if_false] <;> right
    · simp [Char.isAlphanum, h]
    · simp [h]

theorem ne_nil_of_isIdentifier {cs : List Char} (h : isIdentifier cs = true) : cs ≠ [] := by
  rintro rfl
  cases h

theorem isIdentifierPart_of_mem {cs : List Char} (h : isIdentifier cs = true) :
    ∀ c ∈ cs, isIdentifierPart c = true := by
  cases cs with
  | nil => nofun
  | cons first rest =>
    obtain ⟨hfirst, hrest⟩ := Bool.and_eq_true_iff.1 h
    intro c hc
    obtain rfl | hc := List.mem_cons.1 hc
    · exact isIdentifierPart_of_isIdentifierStart hfirst
    · exact List.all_eq_true.1 hrest c hc

end Lockstep.Text
