import Lockstep.Batch.Disk
import Lockstep.Proofs.OutputPaths

/-!
# What a write changes on a disk

A write puts a text at one place, where no directory is, and nothing else changes. So all
directories stay (`Disk.Keeps`), and with them the place that each path leads to. A path is followed
through its directory to the name at its end: paths with the same directory lead into the same
place.

- `Disk.at?_put`: what is on a disk after an entry has been put there.
- `Disk.resolve_eq_ok_iff`: the place of a file.
- `Disk.write_eq_ok`: what a write has done.
-/

namespace Lockstep.Batch

theorem bind_eq_ok {α β ε : Type} {x : Except ε α} {f : α → Except ε β} {b : β} :
    (x >>= f) = .ok b ↔ ∃ a, x = .ok a ∧ f a = .ok b := by
  cases x with
  | error e =>
    constructor
    · intro h
      cases h
    · rintro ⟨a, h, -⟩
      cases h
  | ok a =>
    constructor
    · intro h
      exact ⟨a, rfl, h⟩
    · rintro ⟨a', ha, h⟩
      cases ha
      exact h

namespace Disk

open Lockstep.Path

variable {d d' d₁ : Disk} {place base other : Place} {entry : Entry} {path text : String}
  {dir name : List Char}

/-! ## Entries -/

theorem lookup_replaced (entries : List (Place × Entry)) (place other : Place) (entry : Entry) :
    (entries.map fun e => if e.1 == place then (place, entry) else e).lookup other =
      if other = place then (entries.lookup place).map fun _ => entry
      else entries.lookup other := by
  induction entries with
  | nil => simp
  | cons e entries ih =>
    obtain ⟨key, old⟩ := e
    by_cases hkey : key = place
    · subst hkey
      by_cases hother : other = key
      · simp [hother]
      · have hne : (other == key) = false := beq_false_of_ne hother
        simpa [List.lookup_cons, hne, hother] using ih
    · have hne : (place == key) = false := beq_false_of_ne fun heq => hkey heq.symm
      by_cases hother : other = key
      · subst hother
        simp [hkey]
      · have hne' : (other == key) = false := beq_false_of_ne hother
        simpa [List.lookup_cons, hkey, hne, hne'] using ih

theorem lookup_put (d : Disk) (place other : Place) (entry : Entry) :
    (d.put place entry).entries.lookup other =
      if other = place then some entry else d.entries.lookup other := by
  unfold put
  split
  · next hthere =>
    obtain ⟨old, hold⟩ := Option.isSome_iff_exists.1 hthere
    rw [lookup_replaced, hold]
    rfl
  · next hthere =>
    have hnone : d.entries.lookup place = none := by
      rwa [Option.not_isSome_iff_eq_none] at hthere
    rw [List.lookup_append]
    by_cases hother : other = place
    · simp [hother, hnone]
    · have hne : (other == place) = false := beq_false_of_ne hother
      simp [hother, List.lookup_cons, hne]

theorem at?_put (houtside : isOutside place = false) (d : Disk) (other : Place) (entry : Entry) :
    (d.put place entry).at? other = if other = place then some entry else d.at? other := by
  rw [at?, at?, lookup_put]
  by_cases hother : other = place
  · rw [hother, houtside]
    simp
  · simp [hother]

/-! ## Directories -/

/-- Every directory of one disk is one on the other. -/
def Keeps (d d' : Disk) : Prop :=
  ∀ place, d.at? place = some .directory → d'.at? place = some .directory

theorem Keeps.refl (d : Disk) : Keeps d d := fun _ h => h

theorem Keeps.trans (h : Keeps d d₁) (h' : Keeps d₁ d') : Keeps d d' :=
  fun place hplace => h' place (h place hplace)

theorem keeps_put (h : entry = .directory ∨ d.at? place ≠ some .directory) :
    Keeps d (d.put place entry) := by
  intro other hother
  rw [at?] at hother ⊢
  split at hother
  · next houtside => rw [if_pos houtside]
  · next houtside =>
    rw [if_neg houtside, lookup_put]
    split
    · next heq =>
      subst heq
      rcases h with rfl | hne
      · rfl
      · rw [at?, if_neg houtside] at hne
        exact absurd hother hne
    · exact hother

/-! ## Following names -/

/-- Where a name leads from a directory. -/
def onward (place : Place) (name : String) : Except FileError Place :=
  if name == "" || name == "." then .ok place
  else if name == ".." then .ok (up place)
  else if name.utf8ByteSize > maxName then .error .nameTooLong
  else .ok (place ++ [name])

variable {names names' : List String} {step : String}

theorem follow_cons_eq_ok : d.follow place (step :: names) = .ok base ↔
    d.at? place = some .directory ∧
      ∃ next, onward place step = .ok next ∧ d.follow next names = .ok base := by
  rw [follow]
  cases hat : d.at? place with
  | none => simp
  | some entry =>
    cases entry with
    | file text => simp
    | directory =>
      unfold onward
      split_ifs <;> simp

theorem follow_append_eq_ok : d.follow place (names ++ names') = .ok base ↔
    ∃ next, d.follow place names = .ok next ∧ d.follow next names' = .ok base := by
  induction names generalizing place with
  | nil => exact ⟨fun h => ⟨place, rfl, h⟩, fun ⟨_, hplace, h⟩ => by cases hplace; exact h⟩
  | cons step names ih =>
    rw [List.cons_append, follow_cons_eq_ok]
    constructor
    · rintro ⟨hdirectory, mid, honward, hrest⟩
      obtain ⟨next, hnames, hnext⟩ := ih.1 hrest
      exact ⟨next, follow_cons_eq_ok.2 ⟨hdirectory, mid, honward, hnames⟩, hnext⟩
    · rintro ⟨next, hnames, hnext⟩
      obtain ⟨hdirectory, mid, honward, hrest⟩ := follow_cons_eq_ok.1 hnames
      exact ⟨hdirectory, mid, honward, ih.2 ⟨next, hrest, hnext⟩⟩

theorem Keeps.follow (h : Keeps d d') (hfollow : d.follow place names = .ok base) :
    d'.follow place names = .ok base := by
  induction names generalizing place with
  | nil => exact hfollow
  | cons step names ih =>
    obtain ⟨hdirectory, next, honward, hrest⟩ := follow_cons_eq_ok.1 hfollow
    exact follow_cons_eq_ok.2 ⟨h _ hdirectory, next, honward, ih hrest⟩

/-- A path leads where it did before, as long as all directories stay. -/
theorem Keeps.resolve (h : Keeps d d') (hresolve : d.resolve path = .ok place) :
    d'.resolve path = .ok place := by
  obtain ⟨start, hcheck, hfollow⟩ := bind_eq_ok.1 hresolve
  exact bind_eq_ok.2 ⟨start, hcheck, h.follow hfollow⟩

/-! ## The place of a file -/

/-- Where a directory starts, and the names on its way. -/
def dirWay (dir : List Char) : Place × List String :=
  match (parts dir).map String.ofList with
  | "" :: names => (["/"], names)
  | names => ([], names)

/-- The text of a directory leads to a directory. -/
def LeadsTo (d : Disk) (dir : List Char) (base : Place) : Prop :=
  d.follow (dirWay dir).1 (dirWay dir).2 = .ok base ∧ d.at? base = some .directory

theorem LeadsTo.unique (h : d.LeadsTo dir base) (h' : d.LeadsTo dir other) : base = other :=
  Except.ok.inj (h.1.symm.trans h'.1)

theorem Keeps.leadsTo (h : Keeps d d') (hdir : d.LeadsTo dir base) : d'.LeadsTo dir base :=
  ⟨h.follow hdir.1, h _ hdir.2⟩

theorem ofList_ne_empty (h : isVoid name = false) : String.ofList name ≠ "" := by
  intro heq
  have hname : name = [] := String.ofList_injective heq
  rw [hname] at h
  cases h

theorem ofList_ne_dot (h : isVoid name = false) : String.ofList name ≠ "." := by
  intro heq
  have hname : name = ['.'] := String.ofList_injective heq
  rw [hname] at h
  cases h

theorem wayOf_splits (h : Splits path dir name) :
    wayOf path = ((dirWay dir).1, (dirWay dir).2 ++ [String.ofList name]) := by
  have hnames : namesOf path = (parts dir).map String.ofList ++ [String.ofList name] := by
    rw [namesOf, h.text, splitAtChar_dir h.dir h.slash, List.map_append]
    rfl
  unfold wayOf dirWay
  rw [hnames]
  cases (parts dir).map String.ofList with
  | nil =>
    split
    · next heq => exact absurd (List.cons.inj heq).1 (ofList_ne_empty h.void)
    · rfl
  | cons first names =>
    by_cases hfirst : first = ""
    · subst hfirst
      rfl
    · split
      · next heq => exact absurd (List.cons.inj heq).1 hfirst
      · split
        · next heq => exact absurd (List.cons.inj heq).1 hfirst
        · rfl

theorem onward_name (h : isVoid name = false) (hup : String.ofList name ≠ "..") :
    onward base (String.ofList name) = .ok place ↔
      (String.ofList name).utf8ByteSize ≤ maxName ∧ place = base ++ [String.ofList name] := by
  simp only [onward, beq_iff_eq, ofList_ne_empty h, ofList_ne_dot h, hup, Bool.or_eq_true, or_self,
    if_false]
  split
  · next hsize => simp [Nat.not_le.2 hsize]
  · next hsize => simp [Nat.not_lt.1 hsize, eq_comm]

/-- A file is at its name in the directory that its path leads to. -/
theorem resolve_eq_ok_iff (h : Splits path dir name) (hup : String.ofList name ≠ "..") :
    d.resolve path = .ok place ↔ checkPath path = .ok () ∧ ∃ base, d.LeadsTo dir base ∧
      (String.ofList name).utf8ByteSize ≤ maxName ∧ place = base ++ [String.ofList name] := by
  have hfollow : d.follow (wayOf path).1 (wayOf path).2 = .ok place ↔ ∃ base, d.LeadsTo dir base ∧
      (String.ofList name).utf8ByteSize ≤ maxName ∧ place = base ++ [String.ofList name] := by
    rw [wayOf_splits h, follow_append_eq_ok]
    refine exists_congr fun base => ?_
    rw [follow_cons_eq_ok, LeadsTo, and_assoc]
    refine and_congr_right fun _ => and_congr_right fun _ => ?_
    constructor
    · rintro ⟨next, honward, hnext⟩
      cases hnext
      exact (onward_name h.void hup).1 honward
    · intro hplace
      exact ⟨place, (onward_name h.void hup).2 hplace, rfl⟩
  unfold resolve
  rw [bind_eq_ok, ← hfollow]
  exact ⟨fun ⟨_, hcheck, h⟩ => ⟨hcheck, h⟩, fun ⟨hcheck, h⟩ => ⟨(), hcheck, h⟩⟩

theorem read_eq_ok_iff : d.read path = .ok text ↔
    ∃ place, d.resolve path = .ok place ∧ d.at? place = some (.file text) := by
  unfold read
  rw [bind_eq_ok]
  refine exists_congr fun place => and_congr_right fun _ => ?_
  cases hat : d.at? place with
  | none => simp
  | some entry => cases entry <;> simp

/-! ## Writing -/

/-- A name in a directory is not outside of it. -/
theorem isOutside_name (h : Splits path dir name) (hup : String.ofList name ≠ "..")
    (base : Place) : isOutside (base ++ [String.ofList name]) = false := by
  have hroot : String.ofList name ≠ "/" := by
    intro heq
    have hname : name = ['/'] := String.ofList_injective heq
    exact h.slash (hname ▸ List.mem_cons_self)
  simp [isOutside, hroot, hup]

theorem resolveIn_eq_ok (h : Splits path dir name) {last : String}
    (hresolve : d.resolveIn path = .ok (base, last)) :
    checkPath path = .ok () ∧ d.LeadsTo dir base ∧ last = String.ofList name := by
  have hlast : ((dirWay dir).2 ++ [String.ofList name]).reverse.dropWhile (·.isEmpty) =
      String.ofList name :: (dirWay dir).2.reverse := by
    have hne : ¬(String.ofList name).isEmpty = true :=
      fun hempty => ofList_ne_empty h.void (String.isEmpty_iff.1 hempty)
    rw [List.reverse_append, List.reverse_singleton, List.singleton_append,
      List.dropWhile_cons_of_neg hne]
  unfold resolveIn at hresolve
  obtain ⟨_, hcheck, hresolve⟩ := bind_eq_ok.1 hresolve
  rw [wayOf_splits h] at hresolve
  simp only [hlast, List.reverse_reverse] at hresolve
  obtain ⟨place, hfollow, hplace⟩ := bind_eq_ok.1 hresolve
  cases hplace
  obtain ⟨next, hdir, hdot⟩ := follow_append_eq_ok.1 hfollow
  obtain ⟨hdirectory, stay, honward, hstay⟩ := follow_cons_eq_ok.1 hdot
  cases honward
  cases hstay
  exact ⟨hcheck, ⟨hdir, hdirectory⟩, rfl⟩

/-- What a write has done. -/
theorem write_eq_ok (h : Splits path dir name) (hwrite : d.write path text = .ok d') :
    ∃ base, d.LeadsTo dir base ∧ String.ofList name ≠ ".." ∧
      d.resolve path = .ok (base ++ [String.ofList name]) ∧
      d.at? (base ++ [String.ofList name]) ≠ some .directory ∧
      d' = d.put (base ++ [String.ofList name]) (.file text) := by
  unfold write at hwrite
  obtain ⟨⟨base, last⟩, hresolve, hwrite⟩ := bind_eq_ok.1 hwrite
  obtain ⟨hcheck, hdir, rfl⟩ := resolveIn_eq_ok h hresolve
  simp only at hwrite
  split at hwrite
  · cases hwrite
  next hname =>
  obtain ⟨found, hchild, hwrite⟩ := bind_eq_ok.1 hwrite
  have hup : String.ofList name ≠ ".." := by
    intro heq
    apply hname
    rw [heq]
    rfl
  unfold child? at hchild
  split at hchild
  · cases hchild
  next hsize =>
  cases hchild
  refine ⟨base, hdir, hup, ?_, ?_, ?_⟩
  · exact (resolve_eq_ok_iff h hup).2 ⟨hcheck, base, hdir, Nat.not_lt.1 hsize, rfl⟩
  · intro hdirectory
    rw [hdirectory] at hwrite
    cases hwrite
  · split at hwrite
    · cases hwrite
    · cases hwrite
      rfl

end Disk

end Lockstep.Batch
