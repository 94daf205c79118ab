import ComponentWiring.Proofs.Pass.PropertyOwners
import ComponentWiring.Proofs.Source.AnnotatedHeads
import ComponentWiring.Proofs.Source.Delimiters

/-!
Which markers are seen. A class behind annotations is reported, as a declaration or with a
diagnostic, exactly if the text in front of it ends with a run of plain annotations one of which has
the marker; and a property of a class body is returned exactly if the same holds of it
(`markers_reported_iff`). An annotation with inner parentheses ends the run, so that the markers in
front of it are lost.
-/

namespace ComponentWiring.Source

open Text AnnotationText

/-! ## Seeing a marker -/

/-- A marker in a run of plain annotations, with which the text in front of a head ends and which a
reading starts with. -/
structure MarkerSeen {α : Type} (reader : ReaderAt α) (marker : String)
    (front behind skipped : List Char) (run : List AnnotationText) : Prop where
  ends : front = skipped ++ runText run
  plain : ∀ a ∈ run, a.IsPlain
  marked : carriesMarker (run.map (·.text)) marker = true
  comes : ComesTo reader 0 none skipped (runText run ++ behind)

namespace FileContext

/-- What the classes of a file contribute, put together. -/
def allFindings (file : FileContext) : FileFindings :=
  .ofFindings file (file.classes.map file.findings)

/-- Whether the class of a name that ends at a byte is declared, or refused with a diagnostic. -/
def ReportsClass (file : FileContext) (name : List Char) (stop : Nat) : Prop :=
  ∃ found ∈ file.classes, found.value.name = String.ofList name ∧ found.stop = stop ∧
    ((∃ d ∈ file.allFindings.declarations, (file.findings found).outcome = some (.ok d)) ∨
      ∃ e ∈ file.allFindings.diagnostics, (file.findings found).outcome = some (.error e))

/-- Whether the property of a name at a place is returned as one of a class. -/
def ReportsProperty (file : FileContext) (owner : Occurrence ClassHead) (name : List Char)
    (place : Nat) : Prop :=
  ∃ entry ∈ file.propertyEntries, entry.reporter = owner ∧ entry.place = place ∧
    entry.property.name = String.ofList name

variable {file : FileContext} {found : Occurrence ClassHead}

theorem read_eq_allFindings (path : String) (text : List Char) (fallback : Convention) :
    FileFindings.read path text fallback = (ofText path text fallback).allFindings := rfl

/-- A class is declared or refused exactly if it is marked. -/
theorem reported_iff_marked (hfound : found ∈ file.classes) :
    ((∃ d ∈ file.allFindings.declarations, (file.findings found).outcome = some (.ok d)) ∨
      ∃ e ∈ file.allFindings.diagnostics, (file.findings found).outcome = some (.error e)) ↔
    carriesMarker found.value.annotations classMarker = true := by
  have hmem := List.mem_map_of_mem (f := file.findings) hfound
  constructor
  · rintro (⟨_, -, h⟩ | ⟨_, -, h⟩) <;>
    · by_contra hnot
      simp [findings, hnot] at h
  · intro h
    obtain ⟨outcome, houtcome⟩ : ∃ outcome, (file.findings found).outcome = some outcome := by
      simp only [findings, if_pos h]
      split <;> exact ⟨_, rfl⟩
    cases outcome with
    | ok d =>
      exact .inl ⟨d, List.mem_filterMap.mpr ⟨_, hmem, by rw [houtcome]; rfl⟩, houtcome⟩
    | error e =>
      exact .inr ⟨e, List.mem_filterMap.mpr ⟨_, hmem, by rw [houtcome]⟩, houtcome⟩

end FileContext

/-! ## Classes -/

/-- A class of a file, behind annotations with any arguments. -/
structure AnnotatedClass (file : FileContext) where
  before : List Char
  annotations : List AnnotationText
  head : WrittenHead classModifiers classWords
  rest : List Char
  stops : Stops annotations
  ownClass : ∀ m ∈ head.modifiers, m.1 ≠ "companion"
  rest_apart : ∀ c ∈ rest.head?, isWordChar c = false
  masked_eq : file.masked =
    before ++ (runText annotations ++ (head.front ++ (head.name ++ rest)))

namespace AnnotatedClass

variable {file : FileContext} (c : AnnotatedClass file)

/-- The text in front of the head. -/
def front : List Char :=
  c.before ++ runText c.annotations

/-- The head and the text behind it. -/
def behind : List Char :=
  c.head.front ++ (c.head.name ++ c.rest)

/-- The byte at which the name ends. -/
def nameStop : Nat :=
  byteLength (c.front ++ (c.head.front ++ c.head.name))

theorem masked_eq_front : file.masked = c.front ++ c.behind := by
  rw [c.masked_eq, front, behind, List.append_assoc]

/-- Behind a head that is read up to the end of the name stands what stands behind the name. -/
theorem rest_eq {found : Occurrence ClassHead} (hfound : found ∈ classHeads file.masked)
    (hstop : found.stop = c.nameStop) : found.rest = c.rest := by
  obtain ⟨before, taken, htext, hplace, -⟩ :=
    exists_taken_of_mem_occurrences suffix_of_classHead? hfound
  have hmasked : (before ++ taken) ++ found.rest =
      (c.front ++ (c.head.front ++ c.head.name)) ++ c.rest := by
    rw [List.append_assoc, ← htext, c.masked_eq_front, behind]
    simp
  exact (append_inj_of_byteLength hmasked (hplace.symm.trans hstop)).2

/-- The annotations of a class that is reported are a run of plain ones in front of its words. -/
theorem exists_markerSeen (h : file.ReportsClass c.head.name c.nameStop) :
    ∃ skipped run, MarkerSeen classHead? classMarker c.front c.behind skipped run ∧
      skipped.getLast?.all precedesHead = true := by
  obtain ⟨found, hfound, hname, hstop, hreported⟩ := h
  have hmarked := (FileContext.reported_iff_marked hfound).mp hreported
  have hhead := List.mem_of_mem_filter hfound
  obtain ⟨-, skipped, cs, htext, -, hcomes, hread⟩ :=
    (mem_occurrences_iff suffix_of_classHead?).mp hhead
  obtain ⟨hprevious, hannotations, word, left, hword, hleft⟩ := classHead?_eq_some hread
  have hbehind : behindWords? classModifiers classWords (Source.annotations cs).2 =
      some (c.head.name ++ c.rest) := by
    obtain ⟨-, hhead', htail⟩ := name?_eq_some.mp hleft
    rw [behindWords?, hword, Option.map_some, ← c.rest_eq hhead hstop,
      ← String.toList_ofList (l := c.head.name), ← hname, hhead', htail,
      List.takeWhile_append_dropWhile]
  have hne : (Source.annotations cs).1 ≠ [] := by
    intro hnil
    rw [hannotations, hnil] at hmarked
    cases hmarked
  obtain ⟨run, hplain, htexts, hcs, hends⟩ := exists_run_before areWords_classModifiers
    areWords_classWords c.head c.stops (c.masked_eq.symm.trans htext) hne hbehind
  refine ⟨skipped, run, ⟨hends, hplain, ?_, ?_⟩, hprevious⟩
  · rw [← htexts, ← hannotations]
    exact hmarked
  · rw [behind, ← hcs]
    exact hcomes

/-- A class whose marker is seen is read with the run that has it. -/
theorem exists_mem_classes {skipped : List Char} {run : List AnnotationText}
    (h : MarkerSeen classHead? classMarker c.front c.behind skipped run)
    (hprevious : skipped.getLast?.all precedesHead = true) :
    ∃ found ∈ file.classes, found.value.annotations = run.map (·.text) ∧
      found.value.name = String.ofList c.head.name ∧ found.stop = c.nameStop := by
  obtain ⟨word, hread⟩ := classHead?_run c.head hprevious h.plain c.rest_apart
  let found : Occurrence ClassHead :=
    ⟨⟨run.map (·.text), c.head.modifiers.map Prod.fst, word, String.ofList c.head.name⟩,
      c.nameStop, c.rest⟩
  have hmem : found ∈ classHeads file.masked := by
    refine (mem_occurrences_iff suffix_of_classHead?).mpr ⟨?_, skipped, runText run ++ c.behind,
      ?_, ?_, h.comes, hread⟩
    · rw [c.masked_eq_front, behind]
      simp only [found, nameStop, byteLength_append]
      omega
    · rw [c.masked_eq_front, h.ends, List.append_assoc]
    · simp [behind, c.head.name_isName.ne_nil]
  refine ⟨found, List.mem_filter.mpr ⟨hmem, ?_⟩, rfl, rfl, rfl⟩
  simp only [found, ClassHead.has, List.contains_eq_mem, List.mem_map, Bool.not_eq_true',
    decide_eq_false_iff_not, not_exists, not_and]
  exact fun m hm => c.ownClass m hm

/-- A class is reported exactly if its marker is seen. -/
theorem reported_iff : file.ReportsClass c.head.name c.nameStop ↔
    ∃ skipped run, MarkerSeen classHead? classMarker c.front c.behind skipped run ∧
      skipped.getLast?.all precedesHead = true := by
  refine ⟨c.exists_markerSeen, ?_⟩
  rintro ⟨skipped, run, hseen, hprevious⟩
  obtain ⟨found, hfound, hannotations, hname, hstop⟩ := c.exists_mem_classes hseen hprevious
  refine ⟨found, hfound, hname, hstop, (FileContext.reported_iff_marked hfound).mpr ?_⟩
  rw [hannotations]
  exact hseen.marked

/-- The first annotations of a file, if all of them are plain. -/
theorem reported_of_plain (hplain : ∀ a ∈ c.annotations, a.IsPlain)
    (hmarked : carriesMarker (c.annotations.map (·.text)) classMarker = true)
    (hsign : '@' ∉ c.before) (hlast : c.before.getLast?.all precedesHead = true) :
    file.ReportsClass c.head.name c.nameStop := by
  refine c.reported_iff.mpr ⟨c.before, c.annotations, ⟨rfl, hplain, hmarked, ?_⟩, hlast⟩
  obtain ⟨after, hafter⟩ : ∃ after, runText c.annotations ++ c.behind = '@' :: after := by
    cases hannotations : c.annotations with
    | nil => simp [hannotations, carriesMarker] at hmarked
    | cons a run => exact ⟨_, by rw [runText_cons]; rfl⟩
  -- A head that starts in front of them has no annotations, so that it ends in front of them.
  refine comesTo_of_keeps (Nat.zero_le _) fun front d more heq value left hread => ?_
  obtain ⟨-, -, word, tail, hword, hname⟩ := classHead?_eq_some hread
  rw [hafter] at hread hword ⊢
  have hd : d ≠ '@' := fun hd => hsign (by simp [heq, hd])
  rw [annotations_of_head (by simpa using hd)] at hword
  have hbehind : behindWords? classModifiers classWords (d :: (more ++ '@' :: after)) =
      some tail := by rw [behindWords?, hword, Option.map_some]
  obtain ⟨words, htext, honly⟩ :=
    exists_words_of_behindWords? areWords_classModifiers areWords_classWords hbehind
  have hchars := (isName_of_name? hname).2
  obtain ⟨-, hhead, rfl⟩ := name?_eq_some.mp hname
  have hcut : (d :: more) ++ '@' :: after =
      (words ++ tail.takeWhile isWordChar) ++ tail.dropWhile isWordChar := by
    rw [List.append_assoc, List.takeWhile_append_dropWhile, ← htext]
    rfl
  rcases List.append_eq_append_iff.mp hcut with ⟨between, hwords, htail⟩ | ⟨between, -, hleft⟩
  · cases between with
    | nil => rw [List.nil_append] at htail; rw [htail]
    | cons e between =>
      exfalso
      obtain ⟨rfl, -⟩ := List.cons.inj htail
      have hmem : '@' ∈ words ++ tail.takeWhile isWordChar := hwords ▸ by simp
      rcases List.mem_append.mp hmem with hmem | hmem
      · exact honly.not_mem (by decide) (by decide) hmem
      · exact absurd (List.mem_takeWhile_imp hmem) (by decide)
  · rw [hleft, List.length_append]
    exact Nat.le_add_left _ _

end AnnotatedClass

/-! ## Properties -/

/-- A property among the members of a class body, behind annotations with any arguments. -/
structure AnnotatedProperty (file : FileContext) where
  owner : Occurrence ClassHead
  body : Stretch
  before : List Char
  annotations : List AnnotationText
  head : WrittenHead propertyModifiers propertyWords
  rest : List Char
  owner_mem : owner ∈ file.classes
  body_mem : body ∈ classBody? owner
  stops : Stops annotations
  rest_apart : ∀ c ∈ rest.head?, isWordChar c = false
  members_eq : ownMembers body.text =
    before ++ (runText annotations ++ (head.front ++ (head.name ++ rest)))

namespace AnnotatedProperty

variable {file : FileContext} (p : AnnotatedProperty file)

/-- The members in front of the words of the property. -/
def front : List Char :=
  p.before ++ runText p.annotations

/-- The words of the property and the members behind it. -/
def behind : List Char :=
  p.head.front ++ (p.head.name ++ p.rest)

/-- The place of the name. -/
def place : Nat :=
  p.body.start + byteLength (p.front ++ p.head.front)

theorem members_eq_front : ownMembers p.body.text = p.front ++ p.behind := by
  rw [p.members_eq, front, behind, List.append_assoc]

/-- What is returned at the place comes from the body. -/
theorem exists_bodyReport? {entry : PropertyEntry} (hentry : entry ∈ file.propertyEntries)
    (howner : entry.reporter = p.owner) (hplace : entry.place = p.place) :
    ∃ member ∈ occurrences locatedProperty? (ownMembers p.body.text),
      file.bodyReport? p.owner.value.name p.body member = some (entry.place, entry.property) := by
  obtain ⟨-, hmem⟩ := FileContext.mem_propertyEntries_iff.mp hentry
  rw [howner] at hmem
  rcases FileContext.mem_entries_iff.mp hmem with
    ⟨inside, hinside, located, hlocated, h⟩ | ⟨body, hbody, h⟩
  · exfalso
    obtain ⟨hne, _, hholds⟩ := FileContext.holdsAt_of_constructorReport? hlocated h
    have hlt := stop_lt_of_mem_classBody? hinside p.body_mem
    have hin := (hholds.covers hne).2
    have hbehind : p.body.start ≤ p.place := Nat.le_add_right _ _
    dsimp only at hin
    omega
  · cases Option.mem_unique p.body_mem hbody
    exact h

theorem byteLength_members : byteLength (ownMembers p.body.text) =
    byteLength (p.front ++ p.head.front) + byteLength (p.head.name ++ p.rest) := by
  rw [p.members_eq_front, behind, ← byteLength_append, List.append_assoc]

/-- Behind the words of a property that is read up to a text `left`, with its name at the place,
stand the name and the rest. -/
theorem tail_eq {skipped cs tail left : List Char} (htext : ownMembers p.body.text = skipped ++ cs)
    (htail : behindPropertyWord? cs = some tail) (hleft : left <:+ tail) {stop : Nat}
    (hstop : stop + byteLength left = byteLength (ownMembers p.body.text))
    (hplace : p.place = p.body.start + (stop - (byteLength tail - byteLength left))) :
    tail = p.head.name ++ p.rest := by
  obtain ⟨taken, rfl, -⟩ := exists_of_behindPropertyWord? htail
  have hmembers : (skipped ++ taken) ++ tail =
      (p.front ++ p.head.front) ++ (p.head.name ++ p.rest) := by
    rw [List.append_assoc, ← htext, p.members_eq_front, behind, List.append_assoc]
  refine (append_inj_of_byteLength hmembers ?_).2
  have hle : byteLength left ≤ byteLength tail := by
    obtain ⟨more, rfl⟩ := hleft
    simp
  have hlength : p.place = p.body.start + byteLength (p.front ++ p.head.front) := rfl
  rw [htext] at hstop
  simp only [byteLength_append] at hstop hlength ⊢
  omega

/-- The annotations of a property that is returned are a run of plain ones in front of its words. -/
theorem exists_markerSeen (h : file.ReportsProperty p.owner p.head.name p.place) :
    ∃ skipped run, MarkerSeen property? propertyMarker p.front p.behind skipped run := by
  obtain ⟨entry, hentry, howner, hplace, hname⟩ := h
  obtain ⟨member, hmember, hreport⟩ := p.exists_bodyReport? hentry howner hplace
  obtain ⟨-, hstart, hmarked⟩ := FileContext.eq_of_bodyReport? hreport
  obtain ⟨hend, skipped, cs, htext, -, hcomes, hread⟩ :=
    (mem_occurrences_iff suffix_of_locatedProperty?).mp hmember
  obtain ⟨⟨text, back⟩, stop, left⟩ := member
  dsimp only at hstart hmarked hend hread
  obtain ⟨hproperty, tail, htail, hleft, rfl⟩ := locatedProperty?_eq_some hread
  obtain rfl := p.tail_eq htext htail hleft hend (hplace ▸ hstart)
  rw [annotations_of_property? hproperty] at hmarked
  have hne : (Source.annotations cs).1 ≠ [] := by
    intro hnil
    rw [hnil] at hmarked
    cases hmarked
  obtain ⟨run, hplain, htexts, hcs, hends⟩ := exists_run_before areWords_propertyModifiers
    areWords_propertyWords p.head p.stops (p.members_eq.symm.trans htext) hne htail
  refine ⟨skipped, run, hends, hplain, htexts ▸ hmarked, ?_⟩
  rw [behind, ← hcs]
  exact (comesTo_map property?_eq).mpr hcomes

/-- A property whose marker is seen is read with the run that has it. -/
theorem exists_mem_members {skipped : List Char} {run : List AnnotationText}
    (h : MarkerSeen property? propertyMarker p.front p.behind skipped run) :
    ∃ member ∈ occurrences locatedProperty? (ownMembers p.body.text),
      member.value.1.annotations = run.map (·.text) ∧
        member.value.1.name = String.ofList p.head.name ∧
          p.body.start + (member.stop - member.value.2) = p.place := by
  have hne : run ≠ [] := by
    rintro rfl
    cases h.marked
  obtain ⟨text, left, hread, hannotations, hname, hleft⟩ :=
    locatedProperty?_run skipped.getLast? p.head hne h.plain p.rest_apart
  have hle : byteLength left ≤ byteLength (p.head.name ++ p.rest) := by
    obtain ⟨more, hmore⟩ := hleft
    rw [← hmore, byteLength_append]
    exact Nat.le_add_left _ _
  have hlength := p.byteLength_members
  let member : Occurrence (PropertyText × Nat) :=
    ⟨(text, byteLength (p.head.name ++ p.rest) - byteLength left),
      byteLength (ownMembers p.body.text) - byteLength left, left⟩
  refine ⟨member, (mem_occurrences_iff suffix_of_locatedProperty?).mpr ⟨?_, skipped,
    runText run ++ p.behind, ?_, ?_, (comesTo_map property?_eq).mp h.comes, hread⟩, hannotations,
    hname, ?_⟩
  · simp only [member]
    omega
  · rw [p.members_eq_front, h.ends, List.append_assoc]
  · simp [behind, p.head.name_isName.ne_nil]
  · rw [place]
    simp only [member]
    omega

/-- A property is returned exactly if its marker is seen. -/
theorem reported_iff : file.ReportsProperty p.owner p.head.name p.place ↔
    ∃ skipped run, MarkerSeen property? propertyMarker p.front p.behind skipped run := by
  refine ⟨p.exists_markerSeen, ?_⟩
  rintro ⟨skipped, run, hseen⟩
  obtain ⟨member, hmember, hannotations, hname, hplace⟩ := p.exists_mem_members hseen
  obtain ⟨e, he⟩ : ∃ e, file.bodyReport? p.owner.value.name p.body member = some e := by
    simp only [FileContext.bodyReport?, hannotations, hseen.marked, if_true]
    exact ⟨_, rfl⟩
  obtain ⟨hentryName, hentryPlace, -⟩ := FileContext.eq_of_bodyReport? he
  have hmem : e ∈ file.entries p.owner :=
    FileContext.mem_entries_iff.mpr (.inr ⟨p.body, p.body_mem, member, hmember, he⟩)
  exact ⟨⟨p.owner, e.1, e.2⟩, FileContext.mem_propertyEntries_iff.mpr ⟨p.owner_mem, hmem⟩, rfl,
    hentryPlace.trans hplace, hentryName.trans hname⟩

end AnnotatedProperty

/-! ## Both -/

namespace FileContext

/-- A class behind annotations with any arguments is declared, or refused with a diagnostic, exactly
if the text in front of its words ends with a run of plain annotations that has the marker, and a
reading of heads starts with it; a property of a body is returned exactly under the same
condition. -/
theorem markers_reported_iff (file : FileContext) :
    (∀ c : AnnotatedClass file, file.ReportsClass c.head.name c.nameStop ↔
      ∃ skipped run, MarkerSeen classHead? classMarker c.front c.behind skipped run ∧
        skipped.getLast?.all precedesHead = true) ∧
    ∀ p : AnnotatedProperty file, file.ReportsProperty p.owner p.head.name p.place ↔
      ∃ skipped run, MarkerSeen property? propertyMarker p.front p.behind skipped run :=
  ⟨fun c => c.reported_iff, fun p => p.reported_iff⟩

/-- A file in which an annotation with a call in its arguments stands behind the marker. -/
def callFile : FileContext :=
  ofText "app/Card.kt" "package app\n@GenDsl @A(f(x)) class Card(val a: Int)\n".toList .markToInject

end FileContext

open FileContext

/-- Its class: the reader stops at the inner parenthesis, and starts again behind it. -/
def callClass : AnnotatedClass callFile where
  before := "package app\n".toList
  annotations := [
    { name := "GenDsl".toList, gap := [' ']
      target_word := by simp, name_ne_nil := by decide, name_dotted := by decide
      gap_blank := isAllBlank_blank },
    { name := ['A'], arguments := some "f(x)".toList, gap := [' ']
      target_word := by simp, name_ne_nil := by decide, name_dotted := by decide
      gap_blank := isAllBlank_blank }]
  head := {
    modifiers := [], word := "class", gap := [' '], name := "Card".toList
    modifiers_known := by simp, word_known := by decide, gap_ne_nil := by decide
    gap_blank := isAllBlank_blank, name_isName := by decide }
  rest := "(val a: Int)\n".toList
  stops := ⟨_, rfl, .inl (by decide)⟩
  ownClass := by simp
  rest_apart := by decide
  masked_eq := by decide +kernel

/-- The class is listed, but it is neither declared nor refused. -/
theorem callClass_lost :
    callClass.annotations.map (·.text) = ["@GenDsl".toList, "@A(f(x))".toList] ∧
      IsMatched false "f(x)".toList ∧ callFile.classes.map (·.value.name) = ["Card"] ∧
        ¬callFile.ReportsClass callClass.head.name callClass.nameStop := by
  have hnone : (callFile.allFindings.declarations.isEmpty &&
      callFile.allFindings.diagnostics.isEmpty) = true := by decide +kernel
  rw [Bool.and_eq_true, List.isEmpty_iff, List.isEmpty_iff] at hnone
  refine ⟨by decide +kernel, by decide +kernel, by decide +kernel, ?_⟩
  rintro ⟨found, -, -, -, ⟨d, hd, -⟩ | ⟨e, he, -⟩⟩
  · exact List.not_mem_nil (hnone.1 ▸ hd)
  · exact List.not_mem_nil (hnone.2 ▸ he)

end ComponentWiring.Source
