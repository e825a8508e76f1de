import Lockstep.Proofs.Running

/-!
# Names that stay apart

In C# and in Swift an escape marks a reserved word by characters that no identifier holds, so that
every identifier is still the name that it was (`Target.nameOf_escaped`). In C++ the mark is an
underscore, which may end an identifier as well: a reserved word is spelled like the identifier that
has one underscore more (`Target.Merges`), and there is no other way for two identifiers to become
one. The main statement is `Target.escaped_eq_iff`.
-/

namespace Lockstep

open Config Render Text Lockstep.Tree

namespace Target

variable {t : Target} {a b : String}

/-- The name that a spelled identifier has in the target: the marks of an escape are no part of
it. -/
def nameOf (t : Target) (spelled : String) : String :=
  String.ofList <| match t, spelled.toList with
    | .csharp, '@' :: name => name
    | .swift, '`' :: marked => marked.dropLast
    | _, name => name

/-- The target escapes one of the words, and the other is spelled like it without an escape. -/
def Merges (t : Target) (a b : String) : Prop :=
  t = .cpp ∧ (t.isReserved a = true ∧ b = a ++ "_" ∨ t.isReserved b = true ∧ a = b ++ "_")

theorem escaped_of_not_reserved (h : t.isReserved a = false) : t.escaped a = a := by
  unfold escaped
  rw [h]
  exact if_neg Bool.false_ne_true

/-! ## Escapes that are marked apart -/

theorem head_ne_of_isIdentifier (ha : isIdentifier a.toList = true) (mark : Char)
    (hmark : isIdentifierStart mark = false) (rest : List Char) : a.toList ≠ mark :: rest := by
  intro heq
  rw [heq, isIdentifier, hmark] at ha
  cases ha

/-- The name of an identifier is the identifier, whether it is escaped or not. -/
theorem nameOf_escaped (ht : t ≠ .cpp) (ha : isIdentifier a.toList = true) :
    t.nameOf (t.escaped a) = a := by
  cases hreserved : t.isReserved a with
  | true =>
    unfold escaped
    rw [if_pos hreserved]
    cases t with
    | csharp =>
      have hmarked : ("@" ++ a).toList = '@' :: a.toList := String.toList_append
      simp only [nameOf, hmarked, String.ofList_toList]
    | swift =>
      have hmarked : ("`" ++ a ++ "`").toList = '`' :: (a.toList ++ ['`']) := by
        rw [String.toList_append, String.toList_append]
        rfl
      simp only [nameOf, hmarked, List.dropLast_concat, String.ofList_toList]
    | cpp => exact absurd rfl ht
  | false =>
    rw [escaped_of_not_reserved hreserved]
    have hat := head_ne_of_isIdentifier ha '@' (by decide)
    have htick := head_ne_of_isIdentifier ha '`' (by decide)
    unfold nameOf
    split
    · next name heq => exact absurd heq (hat name)
    · next marked heq => exact absurd heq (htick marked)
    · exact String.ofList_toList

theorem eq_of_escaped_eq (ht : t ≠ .cpp) (ha : isIdentifier a.toList = true)
    (hb : isIdentifier b.toList = true) (h : t.escaped a = t.escaped b) : a = b := by
  rw [← nameOf_escaped ht ha, h, nameOf_escaped ht hb]

/-! ## The escape of C++ -/

theorem nameOf_cpp (spelled : String) : Target.cpp.nameOf spelled = spelled := String.ofList_toList

theorem cpp_escaped_of_reserved (h : Target.cpp.isReserved a = true) :
    Target.cpp.escaped a = a ++ "_" := by
  unfold escaped
  exact if_pos h

/-- No reserved word of C++ ends in an underscore, so that an escaped one is not escaped again. -/
theorem cpp_escaped_marked (h : Target.cpp.isReserved a = true) :
    Target.cpp.escaped (a ++ "_") = Target.cpp.escaped a := by
  have hends : ∀ word ∈ Target.cpp.reservedWords, word.toList.getLast? ≠ some '_' := by
    decide +kernel
  have hfree : Target.cpp.isReserved (a ++ "_") = false := by
    apply Bool.eq_false_iff.2
    intro hreserved
    apply hends _ (List.contains_iff_mem.1 hreserved)
    rw [String.toList_append]
    exact List.getLast?_concat
  rw [escaped_of_not_reserved hfree, cpp_escaped_of_reserved h]

theorem cpp_escaped_eq_iff (hne : a ≠ b) :
    Target.cpp.escaped a = Target.cpp.escaped b ↔ Target.cpp.Merges a b := by
  constructor
  · intro h
    refine ⟨rfl, ?_⟩
    cases ha : Target.cpp.isReserved a with
    | true =>
      rw [cpp_escaped_of_reserved ha] at h
      cases hb : Target.cpp.isReserved b with
      | true =>
        rw [cpp_escaped_of_reserved hb] at h
        exact absurd ((String.append_left_inj "_").1 h) hne
      | false =>
        rw [escaped_of_not_reserved hb] at h
        exact .inl ⟨rfl, h.symm⟩
    | false =>
      rw [escaped_of_not_reserved ha] at h
      cases hb : Target.cpp.isReserved b with
      | true =>
        rw [cpp_escaped_of_reserved hb] at h
        exact .inr ⟨rfl, h⟩
      | false =>
        rw [escaped_of_not_reserved hb] at h
        exact absurd h hne
  · rintro ⟨-, ⟨ha, rfl⟩ | ⟨hb, rfl⟩⟩
    · exact (cpp_escaped_marked ha).symm
    · exact cpp_escaped_marked hb

end Target

/-! ## Names in the output -/

/-- What is written for a name is its identifier, escaped. -/
theorem Tree.SimpleName.received_of_render {s : Settings} {n : SimpleName} {source out : String}
    (h : renderNode s source true (.name (.simple n)) = ⟨none, out⟩) :
    out = s.target.escaped n.identifier := by
  obtain ⟨after, hrun, rfl⟩ := runFrom_ok h
  obtain ⟨mid, hjump, hname⟩ := bind_unit_ok.1 hrun
  obtain ⟨start, -, -, rfl⟩ := jumpTo_ok hjump
  obtain ⟨stop, -, rfl⟩ := swap_ok (runAll_singleton_ok.1 (runAll_node_ok hname))
  rw [Context.moved_moved, List.nil_append]
  change "" ++ String.ofList (Output.indented 0 true _) = _
  rw [Output.indented_zero, String.ofList_toList, String.empty_append]

/-- **Escaping keeps names apart, but for a reserved word of C++ and the identifier that it is
escaped to.** For any two different identifiers and each target, their texts, the names that these
texts have in the target, and what is rendered for two names are the same just in that case. -/
theorem Target.escaped_eq_iff (t : Target) {a b : String} (ha : isIdentifier a.toList = true)
    (hb : isIdentifier b.toList = true) (hne : a ≠ b) :
    (t.escaped a = t.escaped b ↔ t.Merges a b) ∧
    (t.nameOf (t.escaped a) = t.nameOf (t.escaped b) ↔ t.Merges a b) ∧
    ∀ (s : Settings) (n m : SimpleName) (source source' out out' : String), s.target = t →
      n.identifier = a → m.identifier = b →
      renderNode s source true (.name (.simple n)) = ⟨none, out⟩ →
      renderNode s source' true (.name (.simple m)) = ⟨none, out'⟩ →
      (out = out' ↔ t.Merges a b) := by
  have htexts : t.escaped a = t.escaped b ↔ t.Merges a b := by
    by_cases ht : t = .cpp
    · subst ht
      exact cpp_escaped_eq_iff hne
    · exact ⟨fun h => absurd (eq_of_escaped_eq ht ha hb h) hne, fun h => absurd h.1 ht⟩
  refine ⟨htexts, ?_, ?_⟩
  · by_cases ht : t = .cpp
    · subst ht
      rw [nameOf_cpp, nameOf_cpp]
      exact htexts
    · rw [nameOf_escaped ht ha, nameOf_escaped ht hb]
      exact ⟨fun h => absurd h hne, fun h => absurd h.1 ht⟩
  · rintro s n m source source' out out' rfl rfl rfl hn hm
    rw [SimpleName.received_of_render hn, SimpleName.received_of_render hm]
    exact htexts

/-- `lock` and `lock_` are two names in C#, where the first is reserved; `xor` and `xor_` are one in
C++. -/
theorem Target.escaped_eq_iff_underscore :
    (isIdentifier "lock".toList = true ∧ isIdentifier "lock_".toList = true ∧ "lock" ≠ "lock_" ∧
      Target.csharp.isReserved "lock" = true ∧
      Target.csharp.escaped "lock" ≠ Target.csharp.escaped "lock_") ∧
    isIdentifier "xor".toList = true ∧ isIdentifier "xor_".toList = true ∧ "xor" ≠ "xor_" ∧
      Target.cpp.escaped "xor" = Target.cpp.escaped "xor_" := by
  have hlock : isIdentifier "lock".toList = true ∧ isIdentifier "lock_".toList = true := by decide
  have hxor : isIdentifier "xor".toList = true ∧ isIdentifier "xor_".toList = true := by decide
  have hlockNe : "lock" ≠ "lock_" := by decide
  have hxorNe : "xor" ≠ "xor_" := by decide
  have hapart := Target.escaped_eq_iff .csharp hlock.1 hlock.2 hlockNe
  have hmerged := Target.escaped_eq_iff .cpp hxor.1 hxor.2 hxorNe
  refine ⟨⟨hlock.1, hlock.2, hlockNe, by decide, ?_⟩, hxor.1, hxor.2, hxorNe, ?_⟩
  · intro h
    obtain ⟨ht, -⟩ := hapart.1.1 h
    cases ht
  · exact hmerged.1.2 ⟨rfl, .inl ⟨by decide, rfl⟩⟩

/-- Two identifiers that are spelled as one in C++. -/
theorem Target.escaped_not_injective :
    ¬∀ (t : Target) (a b : String), isIdentifier a.toList = true → isIdentifier b.toList = true →
      a ≠ b → t.escaped a ≠ t.escaped b := by
  intro hapart
  apply hapart .cpp "delete" "delete_" (by decide) (by decide) (by decide)
  rfl

end Lockstep
