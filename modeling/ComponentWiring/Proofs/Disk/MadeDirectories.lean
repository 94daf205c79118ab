import ComponentWiring.Proofs.Disk.Places
import ComponentWiring.Proofs.Text.Pieces

/-!
Where directories are made. Making a directory with those above it follows its path, and makes
directories only on the way (`newOnly_makeDirectories`). A way without parts `..` never turns
back, so that what stands on it stands above the place that it leads to
(`OnTheWay.prefix_of_place`).
-/

namespace ComponentWiring

open Text

/-! ## The parts of a path -/

namespace PathText

variable {path above : String} {names : List String}

theorem parts_ne_nil (path : String) : parts path ≠ [] := by
  simpa [parts] using segments_ne_nil path.toList

theorem not_mem_of_mem_parts {part : String} (h : part ∈ parts path) : '/' ∉ part.toList := by
  obtain ⟨piece, hpiece, rfl⟩ := List.mem_map.mp h
  rw [String.toList_ofList]
  exact not_mem_of_mem_segments hpiece

/-- Parts that are put together are found again. -/
theorem parts_ofParts (hne : names ≠ []) (hnames : ∀ name ∈ names, '/' ∉ name.toList) :
    parts (ofParts names) = names := by
  induction names with
  | nil => exact absurd rfl hne
  | cons name rest ih =>
    obtain ⟨hname, hrest⟩ := List.forall_mem_cons.mp hnames
    cases rest with
    | nil => simp [parts, ofParts, segments_of_not_mem hname]
    | cons next rest =>
      have htail := ih (List.cons_ne_nil next rest) hrest
      have hslash : "/".toList = ['/'] := rfl
      rw [parts] at htail ⊢
      rw [ofParts, String.intercalate_cons_cons, String.toList_append, String.toList_append,
        hslash, List.append_assoc, List.singleton_append, segments_append_sep,
        segments_of_not_mem hname, List.map_append, ← ofParts, htail]
      simp

theorem ofParts_parts (path : String) : ofParts (parts path) = path := by
  refine String.toList_inj.mp ?_
  rw [ofParts, String.toList_intercalate, parts, List.map_map]
  have hpieces : (segments '/' path.toList).map (String.toList ∘ String.ofList) =
      segments '/' path.toList := List.map_id'' (fun cs => String.toList_ofList) _
  rw [hpieces]
  exact intercalate_segments path.toList

/-- A path starts at the root if it has more than one part and the first one is empty. -/
theorem isAbsolute_iff : isAbsolute path = true ↔ ∃ rest, rest ≠ [] ∧ parts path = "" :: rest := by
  rw [isAbsolute, String.startsWith_string_iff]
  constructor
  · rintro ⟨rest, hpath⟩
    refine ⟨(segments '/' rest).map String.ofList, by simpa using segments_ne_nil rest, ?_⟩
    rw [parts, ← hpath]
    rfl
  · rintro ⟨rest, hrest, hparts⟩
    obtain ⟨next, rest, rfl⟩ := List.exists_cons_of_ne_nil hrest
    rw [← ofParts_parts path, hparts, ofParts, String.intercalate_cons_cons, String.empty_append,
      String.toList_append]
    exact List.prefix_append _ _

theorem isPrefix_dropIdle (names : List String) : dropIdle names <+: names := by
  induction names with
  | nil => exact List.prefix_refl []
  | cons name rest ih =>
    rw [dropIdle]
    split
    · split
      · exact List.nil_prefix
      · exact List.cons_prefix_cons.mpr ⟨rfl, List.nil_prefix⟩
    · next hkept => exact List.cons_prefix_cons.mpr ⟨rfl, ih⟩

/-- The parent of a path is the root, or it has some of the first parts of the path. -/
theorem parts_of_parent? (h : parent? path = some above) :
    above = "" ∨ isAbsolute path = true ∧ above = "/" ∨
      isAbsolute above = isAbsolute path ∧ parts above <+: parts path := by
  unfold parent? at h
  cases hparts : parts path with
  | nil => exact absurd hparts (parts_ne_nil path)
  | cons first rest =>
    rw [hparts] at h
    dsimp only at h
    split at h
    · split_ifs at h
      cases h
      exact .inl rfl
    · next hne =>
      have hrest : rest ≠ [] := by
        rintro rfl
        exact hne rfl
      have hkept : dropIdle (dropIdle rest).dropLast <+: rest :=
        (isPrefix_dropIdle _).trans ((List.dropLast_prefix _).trans (isPrefix_dropIdle rest))
      have hpath : isAbsolute path = true ↔ first = "" := by
        simp [isAbsolute_iff, hparts, hrest]
      split at h
      · next hroot =>
        cases h
        rw [Bool.and_eq_true, String.isEmpty_iff] at hroot
        exact .inr (.inl ⟨hpath.mpr hroot.1, rfl⟩)
      · next hroot =>
        cases h
        have hslashes : ∀ name ∈ first :: dropIdle (dropIdle rest).dropLast, '/' ∉ name.toList :=
          fun name hname => by
            have hmem : name ∈ parts path :=
              hparts ▸ (List.cons_prefix_cons.mpr ⟨rfl, hkept⟩).subset hname
            exact not_mem_of_mem_parts hmem
        have habove := parts_ofParts (List.cons_ne_nil _ _) hslashes
        refine .inr (.inr ⟨Bool.eq_iff_iff.mpr ?_, ?_⟩)
        · rw [hpath, isAbsolute_iff, habove]
          constructor
          · rintro ⟨names, -, heq⟩
            exact (List.cons.inj heq).1
          · rintro rfl
            exact ⟨_, fun hnil => hroot (by simp [hnil]), rfl⟩
        · rw [habove]
          exact List.cons_prefix_cons.mpr ⟨rfl, hkept⟩

end PathText

/-! ## The way of a path -/

namespace Disk

variable {disk disk' disk'' : Disk} {home place start : Place} {path : String}
  {parts : List String}

/-- Without a part `..` a way only goes down. -/
theorem foldl_stepTo (start : Place) (h : ".." ∉ parts) :
    parts.foldl stepTo start = start ++ parts.filter fun part => !PathText.isIdle part := by
  induction parts generalizing start with
  | nil => exact (List.append_nil start).symm
  | cons part parts ih =>
    rw [List.mem_cons, not_or] at h
    rw [List.foldl_cons, ih _ h.2, List.filter_cons, stepTo]
    cases hidle : PathText.isIdle part with
    | true => simp
    | false => simp [Ne.symm h.1]

/-- The places that some of the first parts of a path lead to. -/
def OnTheWay (home : Place) (path : String) (place : Place) : Prop :=
  ∃ front, front <+: PathText.parts path ∧ front.foldl stepTo (startOf home path) = place

namespace OnTheWay

/-- What is on the way to the parent is on the way. -/
theorem of_parent? {above : String} (h : PathText.parent? path = some above) (hne : above ≠ "")
    (hplace : OnTheWay home above place) : OnTheWay home path place := by
  obtain ⟨front, hfront, rfl⟩ := hplace
  rcases PathText.parts_of_parent? h with hempty | ⟨habsolute, rfl⟩ | ⟨hsame, hparts⟩
  · exact absurd hempty hne
  · have hroot : startOf home "/" = [] :=
      if_pos (PathText.isAbsolute_iff.mpr ⟨[""], List.cons_ne_nil _ _, rfl⟩)
    have hidle : (front.filter fun part => !PathText.isIdle part) = [] :=
      List.prefix_nil.mp (hfront.filter _)
    have hdown : ".." ∉ front := fun hmem => absurd (hfront.subset hmem) (by decide)
    refine ⟨[], List.nil_prefix, ?_⟩
    rw [foldl_stepTo _ hdown, hidle, hroot, startOf, if_pos habsolute]
    rfl
  · exact ⟨front, hfront.trans hparts, by rw [startOf, startOf, hsame]⟩

/-- Without a part `..` the way passes above the place that it leads to. -/
theorem prefix_of_place (h : OnTheWay disk.home path place) (hdown : ".." ∉ PathText.parts path)
    {target : Place} (htarget : disk.place path = .ok target) : place <+: target := by
  obtain ⟨front, hfront, rfl⟩ := h
  have heq : target = (PathText.parts path).foldl stepTo (startOf disk.home path) := by
    unfold Disk.place at htarget
    split_ifs at htarget with hnull hempty habsolute
    · rw [startOf, if_pos habsolute]
      exact eq_of_follow htarget
    · rw [startOf, if_neg habsolute]
      exact eq_of_follow htarget
  rw [heq, foldl_stepTo _ hdown, foldl_stepTo _ fun hmem => hdown (hfront.subset hmem)]
  exact List.prefix_append_right_inj _ |>.mpr (hfront.filter _)

end OnTheWay

theorem isPrefix_lastPart (h : (lastPart parts).2 ≠ "") :
    (lastPart parts).1 ++ [(lastPart parts).2] <+: parts := by
  have hkept := List.reverse_prefix.mpr (List.dropWhile_suffix (l := parts.reverse) (·.isEmpty))
  rw [List.reverse_reverse] at hkept
  unfold lastPart at h ⊢
  dsimp only at h ⊢
  cases hlast : (parts.reverse.dropWhile (·.isEmpty)).reverse.getLast? with
  | none => simp [hlast] at h
  | some last =>
    rw [Option.getD_some, List.dropLast_append_getLast? last hlast]
    exact hkept

/-- The second disk differs from the first one where nothing stood on it, at the given places
only. -/
def NewOnly (places : Place → Prop) (disk disk' : Disk) : Prop :=
  ∀ place, disk.entry? place = none → disk'.entry? place ≠ none → places place

namespace NewOnly

variable {places : Place → Prop}

theorem refl (disk : Disk) : NewOnly places disk disk :=
  fun _ hnone hsome => absurd hnone hsome

theorem trans (h : NewOnly places disk disk') (h' : NewOnly places disk' disk'') :
    NewOnly places disk disk'' := fun place hnone hsome =>
  (em (disk'.entry? place = none)).elim (fun hmid => h' place hmid hsome) fun hmid =>
    h place hnone hmid

theorem mono {places' : Place → Prop} (h : NewOnly places disk disk')
    (hplaces : ∀ place, places place → places' place) : NewOnly places' disk disk' :=
  fun place hnone hsome => hplaces place (h place hnone hsome)

end NewOnly

theorem newOnly_makeDirectory (h : disk.makeDirectory path = .ok disk') :
    NewOnly (OnTheWay disk.home path) disk disk' := by
  obtain ⟨above, target, hfollow, henter, hne, hnone, rfl⟩ := exists_of_makeDirectory h
  have habove := eq_of_follow hfollow
  have htarget := eq_of_enter henter
  have hname : (lastPart (PathText.parts path)).2 ≠ "" := fun hname => hne <| by
    rw [htarget, hname]
    rfl
  have htargetNe : target ≠ [] := by
    rintro rfl
    cases hnone
  intro place hplace hsome
  rw [entry?_put htargetNe] at hsome
  split_ifs at hsome with heq
  · subst heq
    refine ⟨_, isPrefix_lastPart hname, ?_⟩
    rw [List.foldl_append, ← habove, htarget]
    rfl
  · exact absurd hplace hsome

/-- Directories are made on the way only. -/
theorem newOnly_makeDirectories (fuel : Nat) (disk : Disk) (path : String) :
    NewOnly (OnTheWay disk.home path) disk (makeDirectories fuel disk path).2 := by
  refine (makeDirectories_induction (r := fun path disk disk' =>
    Grows disk disk' ∧ NewOnly (OnTheWay disk.home path) disk disk') ?_ ?_ ?_ fuel disk path).2
  · exact fun path disk => ⟨.refl disk, .refl disk⟩
  · rintro path disk mid disk' ⟨hgrows, hnew⟩ hmade
    exact ⟨hgrows.trans (grows_makeDirectory hmade),
      hnew.trans (hgrows.home ▸ newOnly_makeDirectory hmade)⟩
  · rintro path above disk disk' hparent hne ⟨hgrows, hnew⟩
    exact ⟨hgrows, hnew.mono fun _ => OnTheWay.of_parent? hparent hne⟩

/-! ## The path of a place -/

/-- A name that something in a directory can have. -/
structure IsName (name : String) : Prop where
  notIdle : PathText.isIdle name = false
  notUp : name ≠ ".."
  plain : '/' ∉ name.toList

theorem mem_foldl_stepTo {name : String} (h : name ∈ parts.foldl stepTo start) :
    name ∈ start ∨ name ∈ parts ∧ PathText.isIdle name = false ∧ name ≠ ".." := by
  induction parts generalizing start with
  | nil => exact .inl h
  | cons part parts ih =>
    rw [List.foldl_cons] at h
    rcases ih h with hmem | ⟨hmem, hname⟩
    · unfold stepTo at hmem
      split_ifs at hmem with hidle hup
      · exact .inl hmem
      · exact .inl (List.dropLast_subset _ hmem)
      · rcases List.mem_append.mp hmem with hmem | hmem
        · exact .inl hmem
        · obtain rfl := List.mem_singleton.mp hmem
          exact .inr ⟨List.mem_cons_self, by simpa using hidle, by simpa using hup⟩
    · exact .inr ⟨List.mem_cons_of_mem part hmem, hname⟩

theorem isAbsolute_pathOf (place : Place) : PathText.isAbsolute (pathOf place) = true := by
  rw [PathText.isAbsolute, String.startsWith_string_iff, pathOf, String.toList_append]
  exact List.prefix_append _ _

theorem parts_pathOf (hne : place ≠ []) (hnames : ∀ name ∈ place, IsName name) :
    PathText.parts (pathOf place) = "" :: place := by
  obtain ⟨name, rest, rfl⟩ := List.exists_cons_of_ne_nil hne
  have hpath : pathOf (name :: rest) = PathText.ofParts ("" :: name :: rest) := by
    rw [pathOf, PathText.ofParts, String.intercalate_cons_cons, String.empty_append]
  rw [hpath, PathText.parts_ofParts (List.cons_ne_nil _ _)]
  exact List.forall_mem_cons.mpr ⟨by decide, fun name hname => (hnames name hname).plain⟩

namespace OnTheWay

variable {target : Place} (h : OnTheWay home (pathOf target) place)

include h

theorem isName {name : String} (hname : name ∈ place) : IsName name := by
  obtain ⟨front, hfront, rfl⟩ := h
  rw [startOf, if_pos (isAbsolute_pathOf target)] at hname
  rcases mem_foldl_stepTo hname with hmem | ⟨hmem, hidle, hup⟩
  · cases hmem
  · exact ⟨hidle, hup, PathText.not_mem_of_mem_parts (hfront.subset hmem)⟩

/-- The path of a place passes above it. -/
theorem prefix_of_pathOf (hnames : ∀ name ∈ target, IsName name) : place <+: target := by
  obtain ⟨front, hfront, rfl⟩ := h
  rw [startOf, if_pos (isAbsolute_pathOf target)]
  by_cases hne : target = []
  · subst hne
    have hdown : ".." ∉ front := fun hmem => absurd (hfront.subset hmem) (by decide)
    rw [foldl_stepTo _ hdown]
    exact hfront.filter _
  · rw [parts_pathOf hne hnames] at hfront
    have hall : ("" :: target).filter (fun part => !PathText.isIdle part) = target := by
      rw [List.filter_cons_of_neg (by decide)]
      exact List.filter_eq_self.mpr fun name hname => by simp [(hnames name hname).notIdle]
    have hdown : ".." ∉ front := fun hmem => by
      rcases List.mem_cons.mp (hfront.subset hmem) with heq | hmem
      · exact absurd heq (by decide)
      · exact (hnames _ hmem).notUp rfl
    rw [foldl_stepTo _ hdown, List.nil_append]
    exact hall ▸ hfront.filter fun part => !PathText.isIdle part

end OnTheWay

end Disk

end ComponentWiring
