import Mathlib.Data.List.Basic
import ComponentWiring.Disk.Disk

/-!
What operations do to a disk, seen through `entry?`. A path leads to the same place on any disk on
which it can be followed (`eq_of_place`), and it can still be followed as long as directories stay
directories (`Keeps.place_eq`). Making directories only adds directories where nothing stood
(`grows_makeDirectories`).
-/

namespace ComponentWiring.Disk

variable {disk disk' disk'' : Disk} {place other : Place} {entry : Entry}

/-! ## Entries -/

theorem lookup_filter_fst {α β : Type} [BEq α] [LawfulBEq α] (keep : α → Bool) (key : α)
    (entries : List (α × β)) :
    (entries.filter fun e => keep e.1).lookup key =
      if keep key then entries.lookup key else none := by
  induction entries with
  | nil => simp
  | cons e entries ih =>
    obtain ⟨k, value⟩ := e
    by_cases hkey : key = k
    · subst hkey
      cases hkeep : keep key with
      | true => simp [hkeep]
      | false => simpa [hkeep] using ih
    · have hne : (key == k) = false := beq_eq_false_iff_ne.mpr hkey
      cases hkeep : keep k with
      | true => simp only [List.filter_cons, hkeep, if_true, List.lookup_cons, hne, ih]
      | false =>
        simp only [List.filter_cons, hkeep, Bool.false_eq_true, if_false, List.lookup_cons, hne, ih]

theorem entry?_of_ne (h : place ≠ []) : disk.entry? place = disk.entries.lookup place := by
  unfold entry?
  rw [if_neg (by simpa using h)]

theorem entry?_erase (h : place ≠ []) :
    entry? (disk.erase place) other =
      if other = place then none else disk.entry? other := by
  by_cases hother : other = []
  · subst hother
    rw [if_neg h.symm]
    rfl
  · rw [entry?_of_ne hother, entry?_of_ne hother, erase,
      lookup_filter_fst fun key => key != place]
    by_cases heq : other = place <;> simp [heq]

theorem entry?_put (h : place ≠ []) :
    entry? (disk.put place entry) other =
      if other = place then some entry else disk.entry? other := by
  by_cases hother : other = []
  · subst hother
    rw [if_neg h.symm]
    rfl
  · rw [entry?_of_ne hother, entry?_of_ne hother, put, List.lookup_append,
      lookup_filter_fst fun key => key != place]
    by_cases heq : other = place
    · simp [heq]
    · simp [heq, List.lookup_cons, beq_eq_false_iff_ne.mpr heq]

theorem entry?_eraseTree (h : place ≠ []) :
    entry? (disk.eraseTree place) other =
      if place <+: other then none else disk.entry? other := by
  by_cases hother : other = []
  · subst hother
    rw [if_neg (by simpa using h)]
    rfl
  · rw [entry?_of_ne hother, entry?_of_ne hother, eraseTree,
      lookup_filter_fst fun key => !place.isPrefixOf key]
    by_cases hbelow : place <+: other
    · simp [hbelow, List.isPrefixOf_iff_prefix.mpr hbelow]
    · simp [hbelow, mt List.isPrefixOf_iff_prefix.mp hbelow]

theorem isDirectoryAt_iff : disk.isDirectoryAt place = true ↔ disk.entry? place = some .directory :=
  beq_iff_eq

/-! ## Places -/

/-- Where a component leads from a place. -/
def stepTo (place : Place) (part : String) : Place :=
  if PathText.isIdle part then place else if part == ".." then place.dropLast else place ++ [part]

/-- Where a path starts. -/
def startOf (home : Place) (path : String) : Place :=
  if PathText.isAbsolute path then [] else home

theorem eq_of_enter {part : String} (h : disk.enter place part = .ok other) :
    other = stepTo place part := by
  unfold enter at h
  unfold stepTo
  split_ifs at h ⊢ <;> cases h <;> rfl

theorem eq_of_follow {parts : List String} (h : disk.follow place parts = .ok other) :
    other = parts.foldl stepTo place := by
  induction parts generalizing place with
  | nil =>
    cases h
    rfl
  | cons part parts ih =>
    rw [follow, List.foldlM_cons] at h
    cases hpart : disk.enter place part with
    | error fault =>
      rw [hpart] at h
      cases h
    | ok next =>
      rw [hpart] at h
      rw [List.foldl_cons, ← eq_of_enter hpart]
      exact ih h

/-- Wherever a path can be followed, it leads to the same place. -/
theorem eq_of_place {path : String} (hhome : disk'.home = disk.home)
    (h : disk.place path = .ok place) (h' : disk'.place path = .ok other) : place = other := by
  unfold Disk.place at h h'
  split_ifs at h h'
  · rw [eq_of_follow h, eq_of_follow h']
  · rw [eq_of_follow h, eq_of_follow h', hhome]

theorem canonical_eq_ok {path : String} :
    disk.canonical path = .ok place ↔
      disk.place path = .ok place ∧ (disk.entry? place).isSome = true := by
  unfold canonical find
  cases hplace : disk.place path with
  | error fault => simp [bind, Except.bind]
  | ok other =>
    simp only [bind, Except.bind, pure, Except.pure, throw, throwThe, MonadExceptOf.throw,
      Except.ok.injEq]
    cases hentry : (disk.entry? other).isSome with
    | true =>
      simp only [Bool.true_or, if_true, hentry, Except.ok.injEq]
      exact ⟨fun h => ⟨h, h ▸ hentry⟩, fun h => h.1⟩
    | false =>
      have hnot : ¬(other = place ∧ (disk.entry? place).isSome = true) := by
        rintro ⟨rfl, hsome⟩
        exact Bool.false_ne_true (hentry.symm.trans hsome)
      refine iff_of_false ?_ hnot
      cases other == disk.home <;> simp [hentry]

/-! ## Disks that keep their directories -/

/-- The second disk has all directories of the first one. -/
structure Keeps (disk disk' : Disk) : Prop where
  home : disk'.home = disk.home
  directory : ∀ place, disk.entry? place = some .directory →
    disk'.entry? place = some .directory

namespace Keeps

theorem refl (disk : Disk) : Keeps disk disk :=
  ⟨rfl, fun _ => id⟩

theorem trans (h : Keeps disk disk') (h' : Keeps disk' disk'') : Keeps disk disk'' :=
  ⟨h'.home.trans h.home, fun place hplace => h'.directory place (h.directory place hplace)⟩

variable (h : Keeps disk disk')

include h

theorem enter {part : String} (henter : disk.enter place part = .ok other) :
    disk'.enter place part = .ok other := by
  have hopen : ¬(!(disk.isDirectoryAt place || place == disk.home)) = true →
      (!(disk'.isDirectoryAt place || place == disk'.home)) = false := by
    simp only [Bool.not_eq_true, Bool.not_eq_false', Bool.or_eq_true, isDirectoryAt_iff, h.home]
    exact Or.imp (h.directory place) id
  unfold Disk.enter at henter ⊢
  split_ifs at henter with hclosed hidle hup hlong
  all_goals
    simp only [hopen hclosed, Bool.false_eq_true, if_false, hidle, if_true]
  · exact henter
  · simp only [hup, if_true]
    exact henter
  · simp only [hup, if_false, hlong, Bool.false_eq_true]
    exact henter

theorem follow {parts : List String} (hfollow : disk.follow place parts = .ok other) :
    disk'.follow place parts = .ok other := by
  induction parts generalizing place with
  | nil => exact hfollow
  | cons part parts ih =>
    rw [Disk.follow, List.foldlM_cons] at hfollow ⊢
    cases hpart : disk.enter place part with
    | error fault =>
      rw [hpart] at hfollow
      cases hfollow
    | ok next =>
      rw [hpart] at hfollow
      rw [h.enter hpart]
      exact ih hfollow

theorem place_eq {path : String} (hplace : disk.place path = .ok other) :
    disk'.place path = .ok other := by
  unfold Disk.place at hplace ⊢
  split_ifs at hplace ⊢
  · exact h.follow hplace
  · rw [h.home]
    exact h.follow hplace

end Keeps

/-! ## Making directories -/

/-- The second disk differs from the first one in directories that stand where nothing stood. -/
structure Grows (disk disk' : Disk) : Prop where
  home : disk'.home = disk.home
  entry : ∀ place, disk'.entry? place = disk.entry? place ∨
    disk.entry? place = none ∧ disk'.entry? place = some .directory

namespace Grows

theorem refl (disk : Disk) : Grows disk disk :=
  ⟨rfl, fun _ => .inl rfl⟩

theorem trans (h : Grows disk disk') (h' : Grows disk' disk'') : Grows disk disk'' := by
  refine ⟨h'.home.trans h.home, fun place => ?_⟩
  rcases h.entry place with heq | ⟨hnone, hdir⟩
  · rcases h'.entry place with heq' | ⟨hnone', hdir'⟩
    · exact .inl (heq'.trans heq)
    · exact .inr ⟨heq ▸ hnone', hdir'⟩
  · rcases h'.entry place with heq' | ⟨hnone', -⟩
    · exact .inr ⟨hnone, heq'.trans hdir⟩
    · rw [hdir] at hnone'
      cases hnone'

theorem keeps (h : Grows disk disk') : Keeps disk disk' := by
  refine ⟨h.home, fun place hplace => ?_⟩
  rcases h.entry place with heq | ⟨hnone, -⟩
  · exact heq.trans hplace
  · rw [hplace] at hnone
    cases hnone

/-- The files are the same. -/
theorem entry?_iff (h : Grows disk disk') (hfile : entry ≠ .directory) :
    disk'.entry? place = some entry ↔ disk.entry? place = some entry := by
  rcases h.entry place with heq | ⟨hnone, hdir⟩
  · rw [heq]
  · rw [hnone, hdir, Option.some.injEq]
    exact iff_of_false hfile.symm (by simp)

theorem of_put (h : disk.entry? place = none) : Grows disk (disk.put place .directory) := by
  have hne : place ≠ [] := by
    rintro rfl
    cases h
  refine ⟨rfl, fun other => ?_⟩
  rw [entry?_put hne]
  by_cases heq : other = place
  · exact .inr ⟨heq ▸ h, if_pos heq⟩
  · exact .inl (if_neg heq)

end Grows

/-- A directory is made at the place of its path, where nothing stands. -/
theorem exists_of_makeDirectory {path : String} (h : disk.makeDirectory path = .ok disk') :
    ∃ above target, disk.follow (startOf disk.home path) (lastPart (PathText.parts path)).1 =
        .ok above ∧ disk.enter above (lastPart (PathText.parts path)).2 = .ok target ∧
      target ≠ above ∧ disk.entry? target = none ∧ disk' = disk.put target .directory := by
  simp only [makeDirectory, bind, Except.bind, pure, Except.pure, throw, throwThe,
    MonadExceptOf.throw] at h
  rw [← startOf] at h
  split_ifs at h
  cases habove : disk.follow (startOf disk.home path) (lastPart (PathText.parts path)).1 with
  | error fault =>
    rw [habove] at h
    cases h
  | ok above =>
    simp only [habove] at h
    cases htarget : disk.enter above (lastPart (PathText.parts path)).2 with
    | error fault =>
      rw [htarget] at h
      cases h
    | ok target =>
      simp only [htarget] at h
      split_ifs at h with hrefused
      cases h
      simp only [Bool.or_eq_true, not_or, Bool.not_eq_true, Option.isSome_eq_false_iff,
        Option.isNone_iff_eq_none, beq_eq_false_iff_ne] at hrefused
      exact ⟨above, target, rfl, htarget, hrefused.1.1, hrefused.2, rfl⟩

theorem grows_makeDirectory {path : String} (h : disk.makeDirectory path = .ok disk') :
    Grows disk disk' := by
  obtain ⟨above, target, -, -, -, hnone, rfl⟩ := exists_of_makeDirectory h
  exact .of_put hnone

theorem makeDirectories_empty (fuel : Nat) (disk : Disk) :
    makeDirectories fuel disk "" = (.ok (), disk) := by
  cases fuel with
  | zero => rfl
  | succ fuel => simp [makeDirectories]

/-- A relation holds between the disks before and after directories are made for a path, if it does
where nothing is made, lets one more directory be made at the path, and holds for a path as soon as
it does for the path above. -/
theorem makeDirectories_induction {r : String → Disk → Disk → Prop}
    (hrefl : ∀ path disk, r path disk disk)
    (hmade : ∀ {path disk mid disk'}, r path disk mid → mid.makeDirectory path = .ok disk' →
      r path disk disk')
    (habove : ∀ {path above disk disk'}, PathText.parent? path = some above → above ≠ "" →
      r above disk disk' → r path disk disk')
    (fuel : Nat) (disk : Disk) (path : String) : r path disk (makeDirectories fuel disk path).2 := by
  induction fuel generalizing disk path with
  | zero => exact hrefl path disk
  | succ fuel ih =>
    unfold makeDirectories
    extract_lets attempt
    have hattempt {mid : Disk} (h : r path disk mid) : r path disk (attempt mid).2 := by
      simp only [attempt]
      split
      · next heq => exact hmade h heq
      · split <;> exact h
    split
    · exact hrefl path disk
    · split
      · split
        · exact hattempt (hrefl path disk)
        · next above hparent =>
          have hmid : r path disk (makeDirectories fuel disk above).2 := by
            by_cases hempty : above = ""
            · rw [hempty, makeDirectories_empty]
              exact hrefl path disk
            · exact habove hparent hempty (ih disk above)
          split
          · next heq =>
            rw [heq] at hmid
            exact hattempt hmid
          · exact hmid
      · exact hattempt (hrefl path disk)

theorem grows_makeDirectories (fuel : Nat) (disk : Disk) (path : String) :
    Grows disk (makeDirectories fuel disk path).2 :=
  makeDirectories_induction (r := fun _ => Grows) (fun _ => .refl)
    (fun h hmade => h.trans (grows_makeDirectory hmade)) (fun _ _ h => h) fuel disk path

/-! ## Files -/

theorem eq_of_write {content : String} (h : disk.write place content = .ok disk') :
    disk.entry? place ≠ some .directory ∧ disk' = disk.put place (.text content) := by
  unfold write at h
  split_ifs at h with hnull hdirectory
  cases henter : disk.enter place.dropLast (place.getLast?.getD "") with
  | error fault =>
    rw [henter] at h
    cases h
  | ok _ =>
    rw [henter] at h
    cases h
    exact ⟨mt isDirectoryAt_iff.mpr hdirectory, rfl⟩

theorem exists_of_rename (h : disk.rename place other = .ok disk') :
    disk.entry? other ≠ some .directory ∧
      ∃ entry, disk.entry? place = some entry ∧ disk' = (disk.erase place).put other entry := by
  unfold rename at h
  split at h
  · cases h
  · next entry hentry =>
    split_ifs at h with hdirectory
    cases h
    exact ⟨mt isDirectoryAt_iff.mpr hdirectory, entry, hentry, rfl⟩

end ComponentWiring.Disk
