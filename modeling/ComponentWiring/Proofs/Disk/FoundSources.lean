import ComponentWiring.Disk.Discovery
import ComponentWiring.Proofs.Disk.DirectoryTrees
import ComponentWiring.Proofs.Pass.CanonicalImports

/-!
The search for source files finds all of them, each one once, in an order that does not depend on
how the disk keeps its directories (`collect_findsAll`). On a tree of directories the files below a
place are listed depth first (`Disk.filesFrom`). Since the names in a directory come in order, the
files come in the order of the names that lead to them, one name after the other
(`pairwise_filesFrom`); as texts, the paths may come in another order.
-/

namespace ComponentWiring

open Source (utf8Bytes)

namespace PathText

variable {path name : String}

/-- A name has the extension of source files if it ends in it, behind a dot and something else. -/
theorem extension?_eq_some_iff (h : fileName? path = some name) :
    extension? path = some Discovery.sourceExtension ↔
      ∃ stem, stem ≠ "" ∧ name = stem ++ ".kt" := by
  rw [extension?, h, Option.bind_some]
  constructor
  · intro hextension
    split at hextension
    · next first stem extension hsplit =>
      obtain rfl : extension = ['k', 't'] := by
        have hsame := congrArg String.toList (Option.some.inj hextension)
        rwa [String.toList_ofList] at hsame
      refine ⟨String.ofList (first :: stem), by simp, String.toList_inj.mp ?_⟩
      rw [Text.splitLast_eq_some hsplit, String.toList_append, String.toList_ofList]
      rfl
    · cases hextension
  · rintro ⟨stem, hstem, rfl⟩
    obtain ⟨first, rest, hcons⟩ := List.exists_cons_of_ne_nil (mt String.toList_eq_nil_iff.mp hstem)
    have htoList : (stem ++ ".kt").toList = stem.toList ++ '.' :: ['k', 't'] := by simp
    rw [htoList, Text.splitLast_append (by decide), hcons]
    rfl

end PathText

namespace Disk

variable {disk disk' : Disk} {fuel : Nat} {place names : Place} {entry : Entry}

/-! ## The files below a place -/

/-- The files at a place and below it, at most `fuel` levels deep: the names that lead there, and
what stands there. -/
def filesFrom (disk : Disk) : (fuel : Nat) → Place → List (Place × Entry)
  | 0, _ => []
  | fuel + 1, place =>
    if disk.isDirectoryAt place then
      (disk.names place).flatMap fun name =>
        (filesFrom disk fuel (place ++ [name])).map fun file => (name :: file.1, file.2)
    else (disk.entry? place).toList.map fun entry => ([], entry)

/-- Whether names come before other names: the first two that differ are compared, byte by byte. -/
def ComesBefore (names names' : Place) : Prop :=
  names.map (fun name => utf8Bytes name.toList) < names'.map fun name => utf8Bytes name.toList

theorem comesBefore_cons_iff {name name' : String} {names names' : Place} :
    ComesBefore (name :: names) (name' :: names') ↔ utf8Bytes name.toList < utf8Bytes name'.toList ∨
      utf8Bytes name.toList = utf8Bytes name'.toList ∧ ComesBefore names names' :=
  List.cons_lt_cons_iff

instance (names names' : Place) : Decidable (ComesBefore names names') :=
  inferInstanceAs (Decidable (_ < _))

/-- Paths come in another order as texts. -/
example : ComesBefore ["card", "Dial.kt"] ["card.kt"] ∧ "card.kt" < "card/Dial.kt" := by decide

/-- The files come in the order of the names that lead to them. -/
theorem IsTree.pairwise_filesFrom (h : disk.IsTree) (fuel : Nat) (place : Place) :
    (disk.filesFrom fuel place).Pairwise fun file file' => ComesBefore file.1 file'.1 := by
  induction fuel generalizing place with
  | zero => exact .nil
  | succ fuel ih =>
    rw [filesFrom]
    split
    · rw [List.pairwise_flatMap]
      refine ⟨fun name _ => List.pairwise_map.mpr ((ih _).imp fun hbefore =>
        comesBefore_cons_iff.mpr (.inr ⟨rfl, hbefore⟩)), ?_⟩
      refine (h.pairwise_names place).imp fun {name name'} hname file hfile file' hfile' => ?_
      obtain ⟨below, -, rfl⟩ := List.mem_map.mp hfile
      obtain ⟨below', -, rfl⟩ := List.mem_map.mp hfile'
      exact comesBefore_cons_iff.mpr (.inl (utf8Bytes_lt hname))
    · cases disk.entry? place <;> simp

theorem mem_filesFrom_of_directory (hdirectory : disk.isDirectoryAt place = true) :
    (names, entry) ∈ disk.filesFrom (fuel + 1) place ↔
      ∃ name below, names = name :: below ∧ name ∈ disk.names place ∧
        (below, entry) ∈ disk.filesFrom fuel (place ++ [name]) := by
  simp only [filesFrom, hdirectory, if_true, List.mem_flatMap, List.mem_map, Prod.exists,
    Prod.mk.injEq]
  constructor
  · rintro ⟨name, hname, below, _, hfile, rfl, rfl⟩
    exact ⟨name, below, rfl, hname, hfile⟩
  · rintro ⟨name, below, rfl, hname, hfile⟩
    exact ⟨name, hname, below, entry, hfile, rfl, rfl⟩

theorem mem_filesFrom_of_file (hfile : disk.isDirectoryAt place = false) :
    (names, entry) ∈ disk.filesFrom (fuel + 1) place ↔
      names = [] ∧ disk.entry? place = some entry := by
  simp only [filesFrom, hfile, Bool.false_eq_true, if_false, List.mem_map, Option.mem_toList,
    Prod.mk.injEq]
  constructor
  · rintro ⟨_, hentry, rfl, rfl⟩
    exact ⟨rfl, hentry⟩
  · rintro ⟨rfl, hentry⟩
    exact ⟨entry, hentry, rfl, rfl⟩

/-- The files are all that stand below the place, as long as the search goes deep enough. -/
theorem IsTree.mem_filesFrom_iff (h : disk.IsTree)
    (hfuel : disk.entries.length < fuel + place.length) :
    (names, entry) ∈ disk.filesFrom fuel place ↔
      disk.entry? (place ++ names) = some entry ∧ entry ≠ .directory := by
  induction fuel generalizing place names with
  | zero =>
    -- A place that deep is no entry.
    refine iff_of_false List.not_mem_nil ?_
    rintro ⟨hentry, -⟩
    have hdepth := h.length_le hentry
    rw [List.length_append] at hdepth
    omega
  | succ fuel ih =>
    have hnext (name : String) : disk.entries.length < fuel + (place ++ [name]).length := by
      rw [List.length_append, List.length_singleton]
      omega
    cases hdirectory : disk.isDirectoryAt place with
    | true =>
      rw [mem_filesFrom_of_directory hdirectory]
      constructor
      · rintro ⟨name, below, rfl, -, hbelow⟩
        rw [ih (hnext name), List.append_assoc, List.singleton_append] at hbelow
        exact hbelow
      · rintro ⟨hentry, hfile⟩
        cases names with
        | nil =>
          rw [List.append_nil, isDirectoryAt_iff.mp hdirectory] at hentry
          exact absurd (Option.some.inj hentry).symm hfile
        | cons name below =>
          refine ⟨name, below, rfl, (h.mem_names_of_below hentry).2, (ih (hnext name)).mpr ?_⟩
          rw [List.append_assoc, List.singleton_append]
          exact ⟨hentry, hfile⟩
    | false =>
      rw [mem_filesFrom_of_file hdirectory]
      constructor
      · rintro ⟨rfl, hentry⟩
        rw [List.append_nil]
        refine ⟨hentry, ?_⟩
        rintro rfl
        exact Bool.false_ne_true (hdirectory.symm.trans (isDirectoryAt_iff.mpr hentry))
      · rintro ⟨hentry, -⟩
        cases names with
        | nil =>
          rw [List.append_nil] at hentry
          exact ⟨rfl, hentry⟩
        | cons name below =>
          have habove := (h.mem_names_of_below hentry).1
          exact absurd (hdirectory.symm.trans habove) Bool.false_ne_true

end Disk

namespace Discovery

variable {disk disk' : Disk} {place : Place} {entry : Entry} {root : String} {roots : List String}

/-! ## Findings -/

/-- The search looks at the files below a place, each under the path that it has from there. -/
theorem below_eq (h : disk.IsTree) (hplace : disk.entry? place = some entry) (fuel : Nat)
    (path : String) : below disk fuel place path = (disk.filesFrom fuel place).flatMap fun file =>
      fileAt (file.1.foldl PathText.join path) (some file.2) := by
  induction fuel generalizing place path entry with
  | zero => rfl
  | succ fuel ih =>
    rw [below, Disk.filesFrom]
    split
    · simp only [List.flatMap_assoc, List.flatMap_map, List.foldl_cons]
      refine List.flatMap_congr fun name hname => ?_
      obtain ⟨found, hfound⟩ := h.mem_names_iff.mp hname
      exact ih hfound (PathText.join path name)
    · simp [hplace]

/-! ## What is to be found -/

/-- A source file at a place: no directory, and named with the extension of source files. -/
structure IsSource (disk : Disk) (place : Place) (entry : Entry) : Prop where
  stands : disk.entry? place = some entry
  file : entry ≠ .directory
  named : ∃ stem, stem ≠ "" ∧ place.getLast? = some (stem ++ ".kt")

/-- The unit of a file that holds text, where `names` lead to the file from a root. -/
def unit? (root : String) : Place × Entry → Option SourceText
  | (names, .text content) => some ⟨names.foldl PathText.join root, content⟩
  | _ => none

/-- The report about a file that does not hold text. -/
structure IsReadError (root : String) (file : Place × Entry) (report : Diagnostic) : Prop where
  severity : report.severity = .error
  rule : report.rule = .io
  subject : report.subject = file.1.foldl PathText.join root
  message : report.message = "failed to read source: " ++ IoFault.message .notText

/-- What is found from a root. Where nothing stands at the root, that is one report and nothing
else. Otherwise there is a list of the source files at the root and below it, in the order of the
names that lead to them, with a unit for each of them that holds text and one report about each that
does not. -/
structure FindsAll (disk : Disk) (root : String) (found : List SourceText × Diagnostics) :
    Prop where
  missing : ∀ fault, disk.find root = .error fault → found.1 = [] ∧ ∃ report, found.2 = [report] ∧
    report.severity = .error ∧ report.rule = .io ∧ report.subject = root
  present : ∀ place, disk.find root = .ok place → ∃ files : List (Place × Entry),
    (files.Pairwise fun file file' => Disk.ComesBefore file.1 file'.1) ∧
    (∀ names entry, (names, entry) ∈ files ↔ IsSource disk (place ++ names) entry) ∧
    found.1 = files.filterMap (unit? root) ∧
    List.Forall₂ (IsReadError root) (files.filter fun file => (unit? root file).isNone) found.2

/-! ## The search -/

/-- Under the path that it has from a root, a file has the extension that its name has. -/
theorem extension?_eq_some_iff (h : disk.IsTree) (hfind : disk.find root = .ok place)
    {names : Place} (hentry : disk.entry? (place ++ names) = some entry)
    (hfile : entry ≠ .directory) :
    PathText.extension? (names.foldl PathText.join root) = some sourceExtension ↔
      ∃ stem, stem ≠ "" ∧ (place ++ names).getLast? = some (stem ++ ".kt") := by
  have hname : PathText.fileName? (names.foldl PathText.join root) = (place ++ names).getLast? := by
    rcases List.eq_nil_or_concat names with rfl | ⟨above, name, rfl⟩
    · rw [List.append_nil] at hentry ⊢
      exact h.fileName?_of_find hfind hentry hfile
    · rw [List.concat_eq_append] at hentry ⊢
      have hname : Disk.IsName name := h.isName hentry (by simp)
      rw [List.foldl_append, List.foldl_cons, List.foldl_nil, PathText.fileName?_join hname,
        ← List.append_assoc, List.getLast?_concat]
  cases hlast : (place ++ names).getLast? with
  | none => simp [PathText.extension?, hname, hlast]
  | some name => simp [PathText.extension?_eq_some_iff (hname.trans hlast)]

/-- The report of a finding. -/
def reported? : Finding → Option Diagnostic
  | .error diagnostic => some diagnostic
  | .ok _ => none

/-- The source files and the reports of findings, in order. -/
def gathered (findings : List Finding) : List SourceText × Diagnostics :=
  (findings.filterMap Except.toOption, findings.filterMap reported?)

theorem collect_eq (disk : Disk) (roots : List String) : collect disk roots =
    (roots.flatMap fun root => (gathered (fromRoot disk root)).1,
      roots.flatMap fun root => (gathered (fromRoot disk root)).2) := by
  unfold collect gathered
  simp only [List.filterMap_flatMap]
  rfl

/-- Whether a file has the extension of source files under the path that it has from a root. -/
def isNamedSource (root : String) (file : Place × Entry) : Bool :=
  PathText.extension? (file.1.foldl PathText.join root) == some sourceExtension

/-- Of files only the source files count, with a unit or a report for each of them. -/
theorem gathered_fileAt {files : List (Place × Entry)} (root : String)
    (hfiles : ∀ file ∈ files, file.2 ≠ .directory) :
    let findings := files.flatMap fun file => fileAt (file.1.foldl PathText.join root) (some file.2)
    let sources := files.filter (isNamedSource root)
    (gathered findings).1 = sources.filterMap (unit? root) ∧
      List.Forall₂ (IsReadError root) (sources.filter fun file => (unit? root file).isNone)
        (gathered findings).2 := by
  induction files with
  | nil => exact ⟨rfl, .nil⟩
  | cons file files ih =>
    obtain ⟨hfile, hfiles⟩ := List.forall_mem_cons.mp hfiles
    obtain ⟨hunits, hreports⟩ := ih hfiles
    obtain ⟨names, entry⟩ := file
    simp only [gathered, List.flatMap_cons, List.filterMap_append] at hunits hreports ⊢
    cases hnamed : isNamedSource root (names, entry) with
    | false =>
      have hnone : fileAt (names.foldl PathText.join root) (some entry) = [] := by
        rw [fileAt, if_neg (by simpa [isNamedSource] using hnamed)]
      rw [hnone, List.filter_cons_of_neg (by simp [hnamed])]
      exact ⟨hunits, hreports⟩
    | true =>
      have hpath : (PathText.extension? (names.foldl PathText.join root) == some sourceExtension) =
          true := hnamed
      rw [List.filter_cons_of_pos hnamed]
      cases entry with
      | directory => exact absurd rfl hfile
      | text content =>
        have hunit : fileAt (names.foldl PathText.join root) (some (.text content)) =
            [.ok ⟨names.foldl PathText.join root, content⟩] := by
          rw [fileAt, if_pos hpath]
          rfl
        rw [hunit]
        exact ⟨congrArg (List.cons _) hunits, hreports⟩
      | binary bytes =>
        have hreport : fileAt (names.foldl PathText.join root) (some (.binary bytes)) =
            [report (names.foldl PathText.join root)
              ("failed to read source: " ++ IoFault.message .notText)] := by
          rw [fileAt, if_pos hpath]
          rfl
        rw [hreport]
        exact ⟨hunits, .cons ⟨rfl, rfl, rfl, rfl⟩ hreports⟩

/-- From each root everything is found, and nothing else. -/
theorem findsAll_fromRoot (h : disk.IsTree) (root : String) :
    FindsAll disk root (gathered (fromRoot disk root)) := by
  constructor
  · intro fault hfind
    rw [fromRoot, hfind]
    exact ⟨rfl, _, rfl, rfl, rfl, rfl⟩
  · intro place hfind
    obtain ⟨entry, hentry⟩ := h.exists_entry?_of_find hfind
    have hfuel : disk.entries.length < disk.entries.length + 1 + place.length := by omega
    have hfiles : ∀ file ∈ disk.filesFrom (disk.entries.length + 1) place,
        file.2 ≠ .directory := fun file hfile => ((h.mem_filesFrom_iff hfuel).mp hfile).2
    obtain ⟨hunits, hreports⟩ := gathered_fileAt root hfiles
    rw [← below_eq h hentry] at hunits hreports
    have hfrom : fromRoot disk root = below disk (disk.entries.length + 1) place root := by
      rw [fromRoot, hfind]
    rw [hfrom]
    refine ⟨_, (h.pairwise_filesFrom _ place).filter _, fun names entry => ?_, hunits, hreports⟩
    rw [List.mem_filter, h.mem_filesFrom_iff hfuel]
    constructor
    · rintro ⟨⟨hstands, hfile⟩, hnamed⟩
      exact ⟨hstands, hfile,
        (extension?_eq_some_iff h hfind hstands hfile).mp (beq_iff_eq.mp hnamed)⟩
    · rintro ⟨hstands, hfile, hnamed⟩
      exact ⟨⟨hstands, hfile⟩,
        beq_iff_eq.mpr ((extension?_eq_some_iff h hfind hstands hfile).mpr hnamed)⟩

/-! ## Disks that hold the same -/

theorem collect_eq_of_alike (h : disk.Alike disk') (roots : List String) :
    collect disk' roots = collect disk roots := by
  have hbelow (fuel : Nat) (place : Place) (path : String) :
      below disk' fuel place path = below disk fuel place path := by
    induction fuel generalizing place path with
    | zero => rfl
    | succ fuel ih => simp only [below, h.isDirectoryAt_eq, h.names_eq, h.entry, ih]
  have hfrom (root : String) : fromRoot disk' root = fromRoot disk root := by
    simp only [fromRoot, h.find_eq, hbelow, h.entries.length_eq]
  simp only [collect_eq, hfrom]

/-- The search for source files is complete, and it comes to the same result however the disk keeps
its entries. On a tree of directories it goes from root to root, and from each root it finds all
source files at the root and below it, in the order of the names that lead to them. -/
theorem collect_findsAll (h : disk.IsTree) (roots : List String) :
    (∃ found, List.Forall₂ (FindsAll disk) roots found ∧
      collect disk roots = (found.flatMap (·.1), found.flatMap (·.2))) ∧
    ∀ disk' : Disk, disk'.home = disk.home → disk'.entries.Perm disk.entries →
      collect disk' roots = collect disk roots := by
  refine ⟨⟨roots.map fun root => gathered (fromRoot disk root), ?_, ?_⟩,
    fun disk' hhome hperm => collect_eq_of_alike (h.alike_of_perm hhome hperm) roots⟩
  · exact List.forall₂_map_right_iff.mpr
      (List.forall₂_same.mpr fun root _ => findsAll_fromRoot h root)
  · rw [collect_eq, List.flatMap_map, List.flatMap_map]

/-- A directory with a source file, next to a source file whose path comes earlier as a text and a
file that holds no text. -/
def cardsDisk : Disk where
  entries := [
    (["src"], .directory), (["src", "card.kt"], .text "class Card\n"),
    (["src", "card", "Dial.kt"], .text "class Dial\n"), (["src", "card"], .directory),
    (["src", "Photo.kt"], .binary [0xFF]), (["src", "notes.md"], .text "# notes\n")]

theorem collect_findsAll_cards : cardsDisk.IsTree ∧
    ((∃ found, List.Forall₂ (FindsAll cardsDisk) ["src", "gone"] found ∧
      collect cardsDisk ["src", "gone"] = (found.flatMap (·.1), found.flatMap (·.2))) ∧
    ∀ disk' : Disk, disk'.home = cardsDisk.home → disk'.entries.Perm cardsDisk.entries →
      collect disk' ["src", "gone"] = collect cardsDisk ["src", "gone"]) := by
  have htree : cardsDisk.IsTree := by
    refine ⟨by decide, by decide, by decide, rfl⟩
  exact ⟨htree, collect_findsAll htree ["src", "gone"]⟩

end Discovery

end ComponentWiring
