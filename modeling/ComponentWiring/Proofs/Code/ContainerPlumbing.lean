import Mathlib.Data.Option.Basic
import ComponentWiring.Proofs.Code.Planning
import ComponentWiring.Proofs.Text.Pieces

/-!
What the mode decides about the file of a class. A mode stands for a container, and a line is
*plumbing* of a mode if it serves that container: an import, an annotation, the parameter through
which the builder reaches the container, and the statement that fetches the factory.
`artifact?_agrees_across_modes` says that the files of a class for two modes agree line by line but
for plumbing, and that a class is refused for one mode and not for another only because a parameter
of the builder would have the name of the handle.

The lines of a file are compared in stretches, since `AgreeUpTo` is closed under append. Most
stretches are the same in all modes. The imports are not compared one by one: an import that is
written on one line is plumbing as a whole, and the names that run over several lines, which no mode
brings along, come in the same order whatever else is imported.
-/

namespace ComponentWiring

open Text

/-! ## Lists that agree up to some members -/

/-- Two lists that agree but for members of the first kind in the first and of the second kind in
the second. -/
inductive AgreeUpTo {α : Type} (p q : α → Bool) : List α → List α → Prop
  | nil : AgreeUpTo p q [] []
  | both (a : α) {as bs : List α} (h : AgreeUpTo p q as bs) : AgreeUpTo p q (a :: as) (a :: bs)
  | left {a : α} {as bs : List α} (ha : p a = true) (h : AgreeUpTo p q as bs) :
      AgreeUpTo p q (a :: as) bs
  | right {b : α} {as bs : List α} (hb : q b = true) (h : AgreeUpTo p q as bs) :
      AgreeUpTo p q as (b :: bs)

namespace AgreeUpTo

variable {α : Type} {p q : α → Bool} {as bs as' bs' : List α}

theorem refl (as : List α) : AgreeUpTo p q as as := by
  induction as with
  | nil => exact .nil
  | cons a as ih => exact .both a ih

theorem append (h : AgreeUpTo p q as bs) (h' : AgreeUpTo p q as' bs') :
    AgreeUpTo p q (as ++ as') (bs ++ bs') := by
  induction h with
  | nil => exact h'
  | both a _ ih => exact .both a ih
  | left ha _ ih => exact .left ha ih
  | right hb _ ih => exact .right hb ih

theorem of_forall (has : ∀ a ∈ as, p a = true) (hbs : ∀ b ∈ bs, q b = true) :
    AgreeUpTo p q as bs := by
  induction as with
  | nil =>
    induction bs with
    | nil => exact .nil
    | cons b bs ih =>
      rw [List.forall_mem_cons] at hbs
      exact .right hbs.1 (ih hbs.2)
  | cons a as ih =>
    rw [List.forall_mem_cons] at has
    exact .left has.1 (ih has.2)

/-- Lists that are the same without members of a kind agree up to members of that kind. -/
theorem of_filter_eq {r : α → Bool} (hp : ∀ a, r a = true → p a = true)
    (hq : ∀ a, r a = true → q a = true)
    (h : as.filter (fun a => !r a) = bs.filter (fun a => !r a)) : AgreeUpTo p q as bs := by
  induction as generalizing bs with
  | nil =>
    rw [List.filter_nil, eq_comm, List.filter_eq_nil_iff] at h
    exact of_forall (by simp) fun b hb => hq b (by simpa using h b hb)
  | cons a as ih =>
    cases ha : r a with
    | true =>
      rw [List.filter_cons_of_neg (by simp [ha])] at h
      exact .left (hp a ha) (ih h)
    | false =>
      rw [List.filter_cons_of_pos (by simp [ha]), eq_comm] at h
      obtain ⟨front, rest, rfl, hfront, -, hrest⟩ := List.filter_eq_cons_iff.mp h
      have hskip : AgreeUpTo p q [] front :=
        of_forall (by simp) fun b hb => hq b (by simpa using hfront b hb)
      exact hskip.append (.both a (ih hrest.symm))

/-- Without the members in which they may differ, the lists are the same. -/
theorem filter_eq {keep : α → Bool} (h : AgreeUpTo p q as bs)
    (hp : ∀ a, p a = true → keep a = false) (hq : ∀ a, q a = true → keep a = false) :
    as.filter keep = bs.filter keep := by
  induction h with
  | nil => rfl
  | both a _ ih => rw [List.filter_cons, List.filter_cons, ih]
  | left ha _ ih => rw [List.filter_cons_of_neg (by simp [hp _ ha]), ih]
  | right hb _ ih => rw [List.filter_cons_of_neg (by simp [hq _ hb]), ih]

end AgreeUpTo

/-! ## Plumbing -/

/-- The lines of a generated file. -/
def Artifact.lines (a : Artifact) : List (List Char) :=
  segments '\n' a.content.toList

/-- How a line that imports something starts. -/
def isImportLine (line : List Char) : Bool :=
  "import ".toList.isPrefixOf line

/-- Whether a line of a generated file serves the container of a mode: an import, an annotation
other than the marker of builders, the handle as a parameter, or the statement that fetches the
factory. -/
def Mode.isPlumbing (mode : Mode) (line : List Char) : Bool :=
  isImportLine line || (line.head? == some '@' && line != "@VaadinDsl".toList) ||
    line == ("    " ++ mode.handle.declaration ++ ",").toList ||
    "    val factory = ".toList.isPrefixOf line

/-- The lines of a generated file that serve no container. -/
def Artifact.withoutPlumbing (a : Artifact) : List (List Char) :=
  a.lines.filter fun line => !(Mode.quarkus.isPlumbing line || Mode.spring.isPlumbing line)

/-- Two files that differ in nothing but the plumbing of their modes. -/
structure SameButPlumbing (mode mode' : Mode) (a a' : Artifact) : Prop where
  package : a.package = a'.package
  fileName : a.fileName = a'.fileName
  lines : AgreeUpTo mode.isPlumbing mode'.isPlumbing a.lines a'.lines
  kept : a.withoutPlumbing = a'.withoutPlumbing

theorem withoutPlumbing_eq {mode mode' : Mode} {a a' : Artifact}
    (h : AgreeUpTo mode.isPlumbing mode'.isPlumbing a.lines a'.lines) :
    a.withoutPlumbing = a'.withoutPlumbing := by
  have hdropped : ∀ (m : Mode) (line : List Char), m.isPlumbing line = true →
      (!(Mode.quarkus.isPlumbing line || Mode.spring.isPlumbing line)) = false := by
    intro m line hline
    cases m <;> simp [hline]
  exact h.filter_eq (hdropped mode) (hdropped mode')

/-! ## The lines of a layout -/

/-- The lines of texts that are laid out one below the other. -/
def textLines (lines : List String) : List (List Char) :=
  lines.flatMap fun line => segments '\n' line.toList

@[simp] theorem textLines_append (lines lines' : List String) :
    textLines (lines ++ lines') = textLines lines ++ textLines lines' :=
  List.flatMap_append

theorem segments_layout (lines : List String) :
    segments '\n' (layout lines) = textLines lines ++ [[]] := by
  induction lines with
  | nil => rfl
  | cons line lines ih =>
    rw [layout_cons, segments_append_sep, ih]
    simp [textLines]

theorem FactoryFile.lines_laidOut (file : FactoryFile) :
    file.laidOut.lines = textLines file.lines ++ [[]] := by
  rw [Artifact.lines, laidOut, String.toList_ofList, segments_layout]

/-- Texts that are a line each. -/
theorem textLines_eq_map {lines : List String} (h : ∀ line ∈ lines, '\n' ∉ line.toList) :
    textLines lines = lines.map String.toList := by
  induction lines with
  | nil => rfl
  | cons line lines ih =>
    rw [List.forall_mem_cons] at h
    rw [textLines, List.flatMap_cons, segments_of_not_mem h.1]
    exact congrArg (line.toList :: ·) (ih h.2)

/-! ## Imports -/

namespace ImportBlock

theorem isNeeded_congr {stars stars' : List String}
    (h : ∀ owner, owner ∈ stars ↔ owner ∈ stars') (package name : String) :
    isNeeded stars package name = isNeeded stars' package name := by
  unfold isNeeded
  split
  · simp [h]
  · rfl

end ImportBlock

/-- The lines of a name's import that do not import anything: all but the first line of the name. -/
def importRemainder (name : String) : List (List Char) :=
  (segments '\n' name.toList).tail.filter fun line => !isImportLine line

theorem importRemainder_eq_nil {name : String} (h : '\n' ∉ name.toList) :
    importRemainder name = [] := by
  rw [importRemainder, segments_of_not_mem h]
  rfl

theorem filter_textLines_imports (names : List String) :
    (textLines (names.map ("import " ++ ·))).filter (fun line => !isImportLine line) =
      names.flatMap importRemainder := by
  induction names with
  | nil => rfl
  | cons name names ih =>
    have hline : (segments '\n' ("import " ++ name).toList).filter
        (fun line => !isImportLine line) = importRemainder name := by
      rw [String.toList_append, segments_append_of_not_mem (by decide), List.filter_cons_of_neg]
      · rfl
      · simp [isImportLine]
    rw [List.map_cons, textLines, List.flatMap_cons, List.filter_append, hline, List.flatMap_cons]
    exact congrArg (importRemainder name ++ ·) ih

/-- Only the names that run over several lines leave something behind. -/
theorem flatMap_importRemainder (names : List String) :
    names.flatMap importRemainder =
      (names.filter fun name => name.toList.contains '\n').flatMap importRemainder := by
  induction names with
  | nil => rfl
  | cons name names ih =>
    rw [List.flatMap_cons, ih, List.filter_cons]
    split
    · rw [List.flatMap_cons]
    · next h => rw [importRemainder_eq_nil (by simpa using h), List.nil_append]

namespace FactoryFile

variable {d : Declaration} {exportable viaFactory : Bool}

/-- The names that the file of a class refers to whatever the mode. -/
def ownImportNames (d : Declaration) (exportable : Bool) : List String :=
  d.parameters.flatMap (fun p => p.type.importNames) ++ ImportBlock.starNames d.starImports ++
    (if exportable then [builderMarker, builderReceiver] else [])

/-- The names that the file of a class refers to for the container of a mode. -/
def containerImportNames (mode : Mode) (exportable viaFactory : Bool) : List String :=
  if viaFactory then
    mode.factoryImports ++ (if exportable then [mode.handle.importName] else [])
  else []

theorem mem_importNames {mode : Mode} {name : String} :
    name ∈ importNames d exportable viaFactory mode ↔
      name ∈ ownImportNames d exportable ∨
        name ∈ containerImportNames mode exportable viaFactory := by
  rw [importNames, Keyed.mem_sortedNames, ownImportNames, containerImportNames]
  cases exportable <;> cases viaFactory <;> simp [or_assoc, or_comm, or_left_comm]

/-- What a mode imports is a name on one line and no package as a whole. -/
theorem containerImportNames_plain {mode : Mode} {name : String}
    (h : name ∈ containerImportNames mode exportable viaFactory) :
    '\n' ∉ name.toList ∧ ImportBlock.starPackage? name = none := by
  have hall : ∀ n ∈ containerImportNames mode exportable viaFactory,
      '\n' ∉ n.toList ∧ ImportBlock.starPackage? n = none := by
    cases mode <;> cases exportable <;> cases viaFactory <;> decide
  exact hall name h

theorem mem_stars {mode : Mode} {owner : String} :
    owner ∈ (importNames d exportable viaFactory mode).filterMap ImportBlock.starPackage? ↔
      owner ∈ (ownImportNames d exportable).filterMap ImportBlock.starPackage? := by
  simp only [List.mem_filterMap, mem_importNames]
  constructor
  · rintro ⟨name, hname | hname, hstar⟩
    · exact ⟨name, hname, hstar⟩
    · rw [(containerImportNames_plain hname).2] at hstar
      cases hstar
  · rintro ⟨name, hname, hstar⟩
    exact ⟨name, .inl hname, hstar⟩

/-- The imports of a class for two modes leave the same lines behind, if any. -/
theorem importLines_agree (d : Declaration) (exportable viaFactory : Bool) (mode mode' : Mode) :
    AgreeUpTo mode.isPlumbing mode'.isPlumbing
      (textLines (ImportBlock.lines (importNames d exportable viaFactory mode) d.package))
      (textLines (ImportBlock.lines (importNames d exportable viaFactory mode') d.package)) := by
  refine .of_filter_eq (r := isImportLine) (fun line h => by simp [Mode.isPlumbing, h])
    (fun line h => by simp [Mode.isPlumbing, h]) ?_
  have hbroken : ∀ m, (textLines (ImportBlock.lines
      (importNames d exportable viaFactory m) d.package)).filter (fun line => !isImportLine line) =
      ((importNames d exportable viaFactory m).filter fun name => name.toList.contains '\n' &&
        ImportBlock.isNeeded ((importNames d exportable viaFactory m).filterMap
          ImportBlock.starPackage?) d.package name).flatMap importRemainder := by
    intro m
    rw [ImportBlock.lines, filter_textLines_imports, flatMap_importRemainder, List.filter_filter]
  rw [hbroken, hbroken]
  refine congrArg (List.flatMap importRemainder) (Keyed.filter_sortedNames_eq fun name => ?_)
  have hstars (owner : String) :
      owner ∈ (importNames d exportable viaFactory mode).filterMap ImportBlock.starPackage? ↔
        owner ∈ (importNames d exportable viaFactory mode').filterMap ImportBlock.starPackage? :=
    mem_stars.trans mem_stars.symm
  rw [Bool.and_eq_true, Bool.and_eq_true, List.contains_iff_mem, ImportBlock.isNeeded_congr hstars]
  -- A name on several lines is no name of the container, so it is there in both modes.
  have hown : ∀ m, '\n' ∈ name.toList →
      (name ∈ importNames d exportable viaFactory m ↔ name ∈ ownImportNames d exportable) := by
    intro m hbreak
    rw [mem_importNames, or_iff_left]
    exact fun h => (containerImportNames_plain h).1 hbreak
  constructor
  · rintro ⟨hname, hbreak, hneeded⟩
    exact ⟨(hown mode' hbreak).mpr ((hown mode hbreak).mp hname), hbreak, hneeded⟩
  · rintro ⟨hname, hbreak, hneeded⟩
    exact ⟨(hown mode hbreak).mpr ((hown mode' hbreak).mp hname), hbreak, hneeded⟩

/-! ## Factory and builder -/

theorem factoryLines_agree (d : Declaration) (mode mode' : Mode) :
    AgreeUpTo mode.isPlumbing mode'.isPlumbing
      (textLines ((factoryPart d mode).lines d.name))
      (textLines ((factoryPart d mode').lines d.name)) := by
  have hannotations : ∀ m : Mode, ∀ line ∈ textLines m.factoryAnnotations,
      m.isPlumbing line = true := by
    intro m
    cases m <;> decide
  simp only [FactoryPart.lines, List.append_assoc, textLines_append]
  exact (AgreeUpTo.of_forall (hannotations mode) (hannotations mode')).append (.refl _)

/-- The statement that fetches the factory is plumbing, since no line ends within the name of the
factory. -/
theorem isPlumbing_fetch {d : Declaration} (hname : isIdentifier d.name = true) (mode : Mode) :
    ∀ line ∈ textLines ["    " ++ ("val factory = " ++ mode.fetch d.factoryName)],
      mode.isPlumbing line = true := by
  have hbreak : '\n' ∉ d.name.toList := not_mem_of_isIdentifier hname (by decide) (by decide)
  have hline : '\n' ∉ ("    " ++ ("val factory = " ++ mode.fetch d.factoryName)).toList := by
    cases mode <;>
      simp [Mode.fetch, Mode.handle, Mode.fetchParts, Declaration.factoryName, hbreak]
  rw [textLines_eq_map (by simpa using hline), List.map_singleton, List.forall_mem_singleton]
  simp [Mode.isPlumbing]

theorem builderLines_agree {d : Declaration} (hname : isIdentifier d.name = true)
    (viaFactory : Bool) (mode mode' : Mode) :
    AgreeUpTo mode.isPlumbing mode'.isPlumbing
      (textLines ((builderPart d mode viaFactory).lines d.name))
      (textLines ((builderPart d mode' viaFactory).lines d.name)) := by
  cases viaFactory with
  | false => exact .refl _
  | true =>
    have hhandle : ∀ m : Mode, ∀ line ∈ textLines ["    " ++ (m.handle.declaration ++ ",")],
        m.isPlumbing line = true := by
      intro m
      cases m <;> decide
    -- The lines in front of the handle, those between it and the fetched factory, and the others.
    let front := ["@VaadinDsl", "fun HasComponents." ++ d.builderName ++ "("]
    let middle := (d.exposed.map (fun p => p.line ++ ",") ++
      ["block: " ++ d.name ++ ".() -> Unit = \x7b\x7d"]).map ("    " ++ ·) ++
        ["): " ++ d.name ++ " \x7b"]
    let back := ["val component = factory.create(" ++ argumentText d.exposed ++ ")",
      "add(component)", "component.block()", "return component"].map ("    " ++ ·) ++ ["\x7d"]
    have hlines : ∀ m : Mode, (builderPart d m true).lines d.name =
        front ++ (["    " ++ (m.handle.declaration ++ ",")] ++ (middle ++
          (["    " ++ ("val factory = " ++ m.fetch d.factoryName)] ++ back))) := by
      intro m
      simp [BuilderPart.lines, builderPart, creation, front, middle, back]
    simp only [hlines, textLines_append]
    refine (AgreeUpTo.refl _).append
      ((AgreeUpTo.of_forall (hhandle mode) (hhandle mode')).append ?_)
    exact (AgreeUpTo.refl _).append ((AgreeUpTo.of_forall (isPlumbing_fetch hname mode)
      (isPlumbing_fetch hname mode')).append (.refl _))

/-- The planned files of a class for two modes differ in nothing but plumbing. -/
theorem planned_sameButPlumbing {d : Declaration} (hname : isIdentifier d.name = true)
    (exportable : Bool) (policy : Policy) (mode mode' : Mode) :
    SameButPlumbing mode mode' (planned d exportable mode policy).laidOut
      (planned d exportable mode' policy).laidOut := by
  have hlines : AgreeUpTo mode.isPlumbing mode'.isPlumbing
      (planned d exportable mode policy).laidOut.lines
      (planned d exportable mode' policy).laidOut.lines := by
    have himports := importLines_agree d exportable (hasFactory d policy) mode mode'
    have hfactory := factoryLines_agree d mode mode'
    have hbuilder := builderLines_agree hname (hasFactory d policy) mode mode'
    simp only [lines_laidOut, lines, textLines_append, planned]
    generalize hasFactory d policy = viaFactory at himports hbuilder ⊢
    refine AgreeUpTo.append
      (.append (.append (.append (.append (.refl _) himports) (.refl _)) ?_) ?_) (.refl _)
    · cases viaFactory with
      | false => exact .refl _
      | true => exact hfactory
    · cases exportable with
      | false => exact .refl _
      | true =>
        cases viaFactory <;>
        · simp only [if_true, textLines_append]
          exact (AgreeUpTo.refl _).append hbuilder
  refine ⟨rfl, ?_, hlines, withoutPlumbing_eq hlines⟩
  simp only [laidOut, fileName_planned]

/-- A name that is reserved for one mode and not for another is that of the first mode's handle. -/
theorem eq_handle_of_reserved {viaFactory : Bool} {mode mode' : Mode} {name : String}
    (h : name ∈ reservedNames mode viaFactory) (h' : name ∉ reservedNames mode' viaFactory) :
    viaFactory = true ∧ name = mode.handle.name := by
  cases viaFactory with
  | false => exact absurd h h'
  | true =>
    simp only [reservedNames, if_true, List.cons_append, List.nil_append, List.mem_cons,
      List.not_mem_nil, or_false, not_or] at h h'
    exact ⟨rfl, ((h.resolve_left h'.1).resolve_left h'.2.1).resolve_left h'.2.2.1⟩

end FactoryFile

/-! ## The main statement -/

namespace Declaration

open FactoryFile

variable {d : Declaration} {exportable : Bool} {mode : Mode} {policy : Policy}

theorem wellNamed_of_artifact?_eq_ok {a? : Option Artifact}
    (h : d.artifact? exportable mode policy = .ok a?) : WellNamed d := by
  cases a? with
  | none => exact (plan_eq_ok_none_iff.mp (artifact?_eq_ok_none_iff.mp h)).1
  | some a => exact (valid_of_artifact? h).1.names

/-- The files of a class for two modes differ in nothing but plumbing, and there is a file for one
mode where there is one for the other. A class that is refused for the first mode only is one whose
builder goes through a factory and has a parameter with the name of that mode's handle. -/
theorem artifact?_agrees_across_modes (d : Declaration) (exportable : Bool) (policy : Policy)
    (mode mode' : Mode) :
    (∀ a? a'?, d.artifact? exportable mode policy = .ok a? →
      d.artifact? exportable mode' policy = .ok a'? →
        Option.Rel (SameButPlumbing mode mode') a? a'?) ∧
    ∀ failure a'?, d.artifact? exportable mode policy = .error failure →
      d.artifact? exportable mode' policy = .ok a'? →
        exportable = true ∧ hasFactory d policy = true ∧
          ∃ p ∈ d.exposed, p.name = mode.handle.name := by
  constructor
  · intro a? a'? h h'
    cases a? with
    | none =>
      have hnone := plan_eq_ok_none_iff.mp (artifact?_eq_ok_none_iff.mp h)
      have hnone' : d.artifact? exportable mode' policy = .ok none :=
        artifact?_eq_ok_none_iff.mpr (plan_eq_ok_none_iff.mpr hnone)
      cases hnone'.symm.trans h'
      exact .none
    | some a =>
      obtain ⟨file, hplan, rfl⟩ := artifact?_eq_ok_some_iff.mp h
      obtain ⟨hwell, hwanted, -, rfl⟩ := plan_eq_ok_some_iff.mp hplan
      cases a'? with
      | none =>
        obtain ⟨-, hfactory, hexportable⟩ :=
          plan_eq_ok_none_iff.mp (artifact?_eq_ok_none_iff.mp h')
        simp [hfactory, hexportable] at hwanted
      | some a' =>
        obtain ⟨-, rfl⟩ := valid_of_artifact? h'
        exact .some (planned_sameButPlumbing hwell.name exportable policy mode mode')
  · intro failure a'? h h'
    obtain ⟨refusal, hplan, -⟩ := exists_of_artifact?_eq_error h
    rcases refused_of_plan_eq_error hplan with hnames | ⟨-, hexportable, hbuilder⟩
    · have hwell := nameRefusal?_eq_none_iff.mpr (wellNamed_of_artifact?_eq_ok h')
      rw [hnames] at hwell
      cases hwell
    · obtain ⟨p, hp, hreserved⟩ := exists_of_builderRefusal? hbuilder
      cases a'? with
      | none =>
        obtain ⟨-, -, hnot⟩ := plan_eq_ok_none_iff.mp (artifact?_eq_ok_none_iff.mp h')
        simp [hexportable] at hnot
      | some a' =>
        obtain ⟨⟨-, hfree⟩, -⟩ := valid_of_artifact? h'
        obtain ⟨hfactory, hname⟩ := eq_handle_of_reserved hreserved (hfree hexportable p hp)
        exact ⟨hexportable, hfactory, p, hp, hname⟩

/-- A class that takes a parameter by the name of a handle. -/
def handleNamed : Declaration :=
  { name := "Crate"
    parameters := [{ name := "container", type := { name := "kotlin.Int" }, role := .exposed }] }

example :
    plan handleNamed true .quarkus .alwaysFactory =
      .error (.reservedParameter "container" "crate") ∧
    ∃ file, plan handleNamed true .spring .alwaysFactory = .ok (some file) :=
  ⟨rfl, _, rfl⟩

end Declaration

end ComponentWiring
