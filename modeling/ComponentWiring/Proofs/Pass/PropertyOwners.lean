import ComponentWiring.Proofs.Pass.WrittenClasses
import ComponentWiring.Proofs.Source.ClassFindings
import ComponentWiring.Proofs.Source.ClassHeads
import ComponentWiring.Proofs.Source.MemberPlaces
import ComponentWiring.Proofs.Source.PartPlaces

/-!
Which class reports a bound property. Each property is reported at the place of its name
(`FileContext.entries`), and the class that reports it contains that place. Every place is reported
once, by the innermost class that contains it, exactly if what a class reports stands apart from the
classes behind it (`FileContext.oneOwner_iff`). For a class that is nested in the body of another one
this can only fail in its primary constructor: its body stands in braces, in which the outer class
reports nothing, and its constructor does not.
-/

namespace ComponentWiring.Source

open Text

/-! ## What a class contains -/

namespace Stretch

/-- Whether a byte belongs to a stretch. -/
def Covers (s : Stretch) (place : Nat) : Prop :=
  s.start ≤ place ∧ place < s.stop

/-- A stretch holds a word at a place, with a text before it. -/
def HoldsAt (s : Stretch) (place : Nat) (before word : List Char) : Prop :=
  ∃ after, s.text = before ++ (word ++ after) ∧ place = s.start + byteLength before

/-- A stretch in braces that open in another stretch, outside literals. -/
def OpensIn (s around : Stretch) : Prop :=
  ∃ before rest, around.text = before ++ '{' :: rest ∧
    s.start = around.start + byteLength before + 1 ∧ LiteralState.code.run before = .code

variable {s body around : Stretch} {place : Nat} {before word cs : List Char}

theorem HoldsAt.covers (h : s.HoldsAt place before word) (hword : word ≠ []) : s.Covers place := by
  obtain ⟨after, htext, rfl⟩ := h
  have hpos := byteLength_pos hword
  refine ⟨Nat.le_add_right _ _, ?_⟩
  rw [stop, htext]
  simp only [byteLength_append]
  omega

/-- What stands in a stretch outside its inner braces does not stand in braces that open there. -/
theorem HoldsAt.not_covers (hholds : around.HoldsAt place before word)
    (hdepth : braceRun 0 .code before = 0) (haround : around.Stands '{' '}' 0 cs)
    (hbody : body.Stands '{' '}' 0 cs) (hopens : body.OpensIn around) : ¬body.Covers place := by
  obtain ⟨after, htext, rfl⟩ := hholds
  obtain ⟨front, _, left, hcs, hcut, hstart⟩ := haround
  obtain ⟨front', rest', left', hcs', hcut', hstart'⟩ := hbody
  obtain ⟨pre, rest, hpre, hplace, hcode⟩ := hopens
  rintro ⟨hle, hlt⟩
  rw [stop] at hlt
  have hopen : '{'.utf8Size = 1 := rfl
  -- The brace of the inner stretch is the one behind `pre`.
  obtain ⟨-, hrest⟩ : front ++ '{' :: pre = front' ∧
      '{' :: (rest ++ '}' :: left) = '{' :: rest' := by
    refine append_inj_of_byteLength ?_ ?_
    · rw [← hcs', hcs, enclosed?_eq_some (by decide) hcut, hpre]
      simp
    · simp only [byteLength_append, byteLength_cons, hopen]
      omega
  rw [List.cons.injEq] at hrest
  obtain ⟨-, rfl⟩ := hrest
  -- So the place stands behind that brace, in front of the one that closes it.
  obtain ⟨inner, rfl, rfl⟩ : ∃ inner, before = (pre ++ ['{']) ++ inner ∧
      rest = inner ++ (word ++ after) := by
    refine exists_between_of_byteLength_le ?_ ?_
    · rw [← htext, hpre]
      simp
    · simp only [byteLength_append, byteLength_cons, byteLength_nil, hopen]
      omega
  obtain ⟨more, hmore, -⟩ : ∃ more, body.text = inner ++ more ∧
      word ++ after ++ '}' :: left = more ++ '}' :: left' := by
    refine exists_between_of_byteLength_le ?_ ?_
    · rw [← enclosed?_eq_some (by decide) hcut']
      simp
    · simp only [byteLength_append, byteLength_cons, byteLength_nil, hopen] at hlt
      omega
  refine braceRun_of_enclosed? hcode hcut' ⟨more, hmore.symm⟩ ?_
  rwa [List.append_assoc] at hdepth

end Stretch

/-- The body of a class. -/
def classBody? (found : Occurrence ClassHead) : Option Stretch :=
  (Header.read found.stop found.rest).body

/-- Whether a place stands in the primary constructor or in the body of a class. -/
def ClassContains (found : Occurrence ClassHead) (place : Nat) : Prop :=
  (∃ inside ∈ parameterList? found, inside.Covers place) ∨
    ∃ body ∈ classBody? found, body.Covers place

theorem stop_lt_of_mem_classBody? {found : Occurrence ClassHead} {inside body : Stretch}
    (hinside : inside ∈ parameterList? found) (hbody : body ∈ classBody? found) :
    inside.stop < body.start := by
  rw [Option.mem_def, parameterList?] at hinside
  split at hinside
  · next inside' visibility hshape =>
    cases hinside
    exact (Header.placed_read found.stop found.rest).apart _ visibility hshape body hbody
  · cases hinside

/-- The body of a class stands in the braces of the text. -/
theorem stands_of_mem_classBody? {cs : List Char} {found : Occurrence ClassHead} {body : Stretch}
    (hfound : found ∈ classHeads cs) (hbody : body ∈ classBody? found) :
    body.Stands '{' '}' 0 cs := by
  obtain ⟨before, taken, rfl, hstop, -⟩ :=
    exists_taken_of_mem_occurrences suffix_of_classHead? hfound
  have hstands := (Header.placed_read found.stop found.rest).body body hbody
  rw [hstop, ← Nat.zero_add (byteLength _)] at hstands
  rw [← List.append_assoc]
  exact hstands.append _

/-- The heads of a text stand one behind the other. -/
theorem pairwise_classHeads (cs : List Char) :
    (classHeads cs).Pairwise fun a b => a.stop < b.stop := by
  refine pairwise_occurrencesFrom (fun _ => 1) (fun _ _ _ _ hread => ?_)
    (fun _ _ _ _ hread => (taken_of_classHead? hread).2) 0 0 none cs
  obtain ⟨⟨taken, rfl⟩, hlength⟩ := taken_of_classHead? hread
  have hpos : 0 < byteLength taken := byteLength_pos fun hnil => by simp [hnil] at hlength
  refine ⟨List.suffix_append _ _, ?_⟩
  rw [byteLength_append]
  omega

/-! ## What a class reports -/

namespace FileContext

/-- What one part of a parameter list makes of a constructor: a marked property, with the place of
its name. -/
def constructorReport? (file : FileContext) (owner : String) (inside : Stretch)
    (located : List Char × Nat) : Option (Nat × Property) :=
  let (part, offset) := located
  match locatedParameter? part with
  | some (p, named) =>
    if p.isProperty && carriesMarker p.annotations propertyMarker then
      some (inside.start + (offset + byteLength part - byteLength named),
        file.property owner p.name p.typeText p.modifiers (inside.start + offset))
    else none
  | none => none

/-- What one property of a class body makes of it: a marked property, with the place of its
name. -/
def bodyReport? (file : FileContext) (owner : String) (body : Stretch)
    (found : Occurrence (PropertyText × Nat)) : Option (Nat × Property) :=
  let (p, back) := found.value
  if carriesMarker p.annotations propertyMarker then
    let type := beforeText " by ".toList (p.type.getD [])
    some (body.start + (found.stop - back),
      file.property owner p.name type p.modifiers (body.start + found.stop))
  else none

/-- The marked properties that a class reports, each with the place of its name. -/
def entries (file : FileContext) (found : Occurrence ClassHead) : List (Nat × Property) :=
  let owner := found.value.name
  ((parameterList? found).toList.flatMap fun inside =>
      (parametersWithOffsets inside.text).filterMap (file.constructorReport? owner inside)) ++
    (classBody? found).toList.flatMap fun body =>
      (occurrences locatedProperty? (ownMembers body.text)).filterMap (file.bodyReport? owner body)

variable {file : FileContext} {owner : String} {inside body : Stretch} {e : Nat × Property}
  {found : Occurrence ClassHead}

theorem map_snd_constructorReport? (file : FileContext) (owner : String) (inside : Stretch) :
    ((parametersWithOffsets inside.text).filterMap (file.constructorReport? owner inside)).map
      Prod.snd = file.constructorProperties owner inside := by
  rw [constructorProperties, List.map_filterMap]
  refine List.filterMap_congr fun ⟨part, offset⟩ _ => ?_
  simp only [constructorReport?, parameterText?_eq]
  cases locatedParameter? part with
  | none => rfl
  | some r =>
    simp only [Option.map_some]
    split_ifs <;> rfl

theorem map_snd_bodyReport? (file : FileContext) (owner : String) (body : Stretch) :
    ((occurrences locatedProperty? (ownMembers body.text)).filterMap
      (file.bodyReport? owner body)).map Prod.snd = file.bodyProperties owner body := by
  rw [bodyProperties, properties, map_occurrences property?_eq, List.map_filterMap,
    List.filterMap_map]
  refine List.filterMap_congr fun found _ => ?_
  simp only [bodyReport?, Function.comp_apply]
  split_ifs <;> rfl

/-- The entries are the properties that the class contributes to the file. -/
theorem map_snd_entries (file : FileContext) (found : Occurrence ClassHead) :
    (file.entries found).map Prod.snd = (file.findings found).properties := by
  rw [entries, findings, List.map_append, parameterList?, classBody?]
  dsimp only
  congr 1
  · cases (Header.read found.stop found.rest).shape with
    | primary inside visibility => simp [map_snd_constructorReport?]
    | implicit => rfl
    | unbalanced => rfl
  · cases (Header.read found.stop found.rest).body with
    | some body => simp [map_snd_bodyReport?]
    | none => rfl

theorem mem_entries_iff : e ∈ file.entries found ↔
    (∃ inside ∈ parameterList? found, ∃ located ∈ parametersWithOffsets inside.text,
      file.constructorReport? found.value.name inside located = some e) ∨
    ∃ body ∈ classBody? found, ∃ member ∈ occurrences locatedProperty? (ownMembers body.text),
      file.bodyReport? found.value.name body member = some e := by
  simp [entries]

/-! ## Where it stands -/

theorem exists_of_constructorReport? {located : List Char × Nat}
    (h : file.constructorReport? owner inside located = some e) : ∃ p named,
      locatedParameter? located.1 = some (p, named) ∧ e.2.name = p.name ∧
        e.1 = inside.start + (located.2 + byteLength located.1 - byteLength named) := by
  simp only [constructorReport?] at h
  split at h
  · next p named hlocated =>
    split_ifs at h
    cases h
    exact ⟨p, named, hlocated, rfl, rfl⟩
  · cases h

theorem eq_of_bodyReport? {member : Occurrence (PropertyText × Nat)}
    (h : file.bodyReport? owner body member = some e) :
    e.2.name = member.value.1.name ∧ e.1 = body.start + (member.stop - member.value.2) ∧
      carriesMarker member.value.1.annotations propertyMarker = true := by
  simp only [bodyReport?] at h
  split_ifs at h with hmarked
  cases h
  exact ⟨rfl, rfl, hmarked⟩

/-- In a constructor the name of the property stands at the place. -/
theorem holdsAt_of_constructorReport? {located : List Char × Nat}
    (hlocated : located ∈ parametersWithOffsets inside.text)
    (h : file.constructorReport? owner inside located = some e) :
    e.2.name.toList ≠ [] ∧ ∃ before, inside.HoldsAt e.1 before e.2.name.toList := by
  obtain ⟨part, offset⟩ := located
  obtain ⟨p, named, hread, hname, hplace⟩ := exists_of_constructorReport? h
  obtain ⟨⟨front, hfront⟩, name, behind, rfl, hisName, hp⟩ := exists_of_locatedParameter? hread
  obtain ⟨before, after, htext, rfl⟩ :=
    exists_of_mem_locateParts (tiledBy_parameterParts _) hlocated
  have he : e.2.name.toList = name := by rw [hname, hp, String.toList_ofList]
  rw [he, hplace]
  dsimp only at hfront ⊢
  refine ⟨hisName.ne_nil, before ++ front, behind ++ after, ?_, ?_⟩
  · rw [htext, ← hfront]
    simp only [List.append_assoc]
  · rw [← hfront]
    simp only [byteLength_append]
    omega

/-- In a body it stands there as well, and no brace is open in front of it. -/
theorem holdsAt_of_bodyReport? {member : Occurrence (PropertyText × Nat)}
    (hmember : member ∈ occurrences locatedProperty? (ownMembers body.text))
    (h : file.bodyReport? owner body member = some e) :
    e.2.name.toList ≠ [] ∧ ∃ before, body.HoldsAt e.1 before e.2.name.toList ∧
      braceRun 0 .code before = 0 := by
  obtain ⟨hname, hplace, -⟩ := eq_of_bodyReport? h
  obtain ⟨front, name, more, hlocated⟩ := exists_locatedIn hmember
  obtain ⟨before, after, htext, hlength, hdepth⟩ := hlocated.exists_in_body
  have he : e.2.name.toList = name := by rw [hname, hlocated.name_toList]
  rw [he]
  exact ⟨hlocated.isName.ne_nil, before, ⟨more ++ after, htext,
    by rw [hplace, hlocated.stop_sub, hlength]⟩, hdepth⟩

/-- A class contains what it reports. -/
theorem classContains_of_mem_entries (h : e ∈ file.entries found) : ClassContains found e.1 := by
  rcases mem_entries_iff.mp h with
    ⟨inside, hinside, located, hlocated, h⟩ | ⟨body, hbody, member, hmember, h⟩
  · obtain ⟨hne, before, hholds⟩ := holdsAt_of_constructorReport? hlocated h
    exact .inl ⟨inside, hinside, hholds.covers hne⟩
  · obtain ⟨hne, before, hholds, -⟩ := holdsAt_of_bodyReport? hmember h
    exact .inr ⟨body, hbody, hholds.covers hne⟩

/-- A class reports no place twice. -/
theorem pairwise_entries (file : FileContext) (found : Occurrence ClassHead) :
    (file.entries found).Pairwise fun a b => a.1 < b.1 := by
  have hconstructor (inside : Stretch) : ((parametersWithOffsets inside.text).filterMap
      (file.constructorReport? found.value.name inside)).Pairwise fun a b => a.1 < b.1 := by
    refine (pairwise_locateParts (tiledBy_parameterParts inside.text) 0).filterMap _ ?_
    intro first second hle a ha b hb
    obtain ⟨p, named, hread, -, ha⟩ := exists_of_constructorReport? ha
    obtain ⟨p', named', hread', -, hb⟩ := exists_of_constructorReport? hb
    obtain ⟨-, name, behind, rfl, hname, -⟩ := exists_of_locatedParameter? hread
    obtain ⟨⟨front, hfront⟩, -⟩ := exists_of_locatedParameter? hread'
    obtain ⟨⟨front', hfront'⟩, -⟩ := exists_of_locatedParameter? hread
    have hpos := byteLength_pos hname.ne_nil
    rw [ha, hb, ← hfront]
    rw [← hfront'] at hle ⊢
    simp only [byteLength_append] at hle ⊢
    omega
  have hbody (body : Stretch) : ((occurrences locatedProperty? (ownMembers body.text)).filterMap
      (file.bodyReport? found.value.name body)).Pairwise fun a b => a.1 < b.1 := by
    refine (List.Pairwise.and_mem.mp (pairwise_locatedProperties _)).filterMap _ ?_
    rintro first second ⟨hfirst, hsecond, hle⟩ a ha b hb
    obtain ⟨_, _, _, hlocated⟩ := exists_locatedIn hfirst
    have hstop := hlocated.stop
    have hpos := hlocated.back_pos
    rw [(eq_of_bodyReport? ha).2.1, (eq_of_bodyReport? hb).2.1]
    omega
  refine List.pairwise_append.mpr ⟨?_, ?_, ?_⟩
  · cases parameterList? found with
    | none => exact .nil
    | some inside => simpa using hconstructor inside
  · cases classBody? found with
    | none => exact .nil
    | some body => simpa using hbody body
  · intro a ha b hb
    obtain ⟨inside, hinside, ha⟩ := List.mem_flatMap.mp ha
    obtain ⟨body, hbody, hb⟩ := List.mem_flatMap.mp hb
    obtain ⟨located, hlocated, ha⟩ := List.mem_filterMap.mp ha
    obtain ⟨member, hmember, hb⟩ := List.mem_filterMap.mp hb
    obtain ⟨hne, _, hholds⟩ := holdsAt_of_constructorReport? hlocated ha
    obtain ⟨hne', _, hholds', -⟩ := holdsAt_of_bodyReport? hmember hb
    have hlt :=
      stop_lt_of_mem_classBody? (Option.mem_toList.mp hinside) (Option.mem_toList.mp hbody)
    exact Nat.lt_trans (hholds.covers hne).2 (Nat.lt_of_lt_of_le hlt (hholds'.covers hne').1)

/-! ## The whole file -/

/-- The classes of a file. Companion objects are not classes of their own. -/
def classes (file : FileContext) : List (Occurrence ClassHead) :=
  (classHeads file.masked).filter fun found => !found.value.has "companion"

end FileContext

/-- A property that a class reports, and the place of its name. -/
structure PropertyEntry where
  reporter : Occurrence ClassHead
  place : Nat
  property : Property

namespace FileContext

/-- The properties that the classes of a file report. -/
def propertyEntries (file : FileContext) : List PropertyEntry :=
  file.classes.flatMap fun found => (file.entries found).map fun e => ⟨found, e.1, e.2⟩

/-- Every place is reported once at most, and by the innermost class that contains it: of all classes
that contain it, the one whose name comes last. -/
structure OneOwner (file : FileContext) : Prop where
  once : (file.propertyEntries.map (·.place)).Nodup
  innermost : ∀ entry ∈ file.propertyEntries, ClassContains entry.reporter entry.place ∧
    ∀ found ∈ file.classes, ClassContains found entry.place → found.stop ≤ entry.reporter.stop

/-- What a class reports stands neither in the primary constructor of a class behind its name nor in
the body of one, unless it opens in the body of the first class, outside literals; nothing has to be
asked of that. -/
structure KeepsApart (file : FileContext) (outer inner : Occurrence ClassHead) : Prop where
  constructor : ∀ inside ∈ parameterList? inner, ∀ e ∈ file.entries outer, ¬inside.Covers e.1
  body : ∀ body ∈ classBody? inner, (¬∃ around ∈ classBody? outer, body.OpensIn around) →
    ∀ e ∈ file.entries outer, ¬body.Covers e.1

variable {file : FileContext} {outer inner : Occurrence ClassHead} {body : Stretch}
  {e : Nat × Property}

theorem mem_propertyEntries_iff {entry : PropertyEntry} : entry ∈ file.propertyEntries ↔
    entry.reporter ∈ file.classes ∧ (entry.place, entry.property) ∈ file.entries entry.reporter := by
  obtain ⟨reporter, place, property⟩ := entry
  simp [propertyEntries]

/-- The properties of a file are those of its entries, in order. -/
theorem properties_read (path : String) (text : List Char) (fallback : Convention) :
    (FileFindings.read path text fallback).properties =
      (ofText path text fallback).propertyEntries.map (·.property) := by
  rw [propertyEntries, List.map_flatMap]
  simp only [List.map_map, Function.comp_def, FileFindings.read, FileFindings.ofFindings,
    List.flatMap_map]
  exact List.flatMap_congr fun found _ => (map_snd_entries _ found).symm

/-- The owner of a property is the name of the class that reports it. -/
theorem owner_of_mem_propertyEntries {entry : PropertyEntry} (h : entry ∈ file.propertyEntries) :
    entry.property.owner = entry.reporter.value.name := by
  have hmem := List.mem_map_of_mem (f := Prod.snd) (mem_propertyEntries_iff.mp h).2
  rw [map_snd_entries] at hmem
  exact (owner_of_mem_properties hmem).2

/-- In the body of a class that opens in the body of another one, outside literals, the other one
reports nothing. -/
theorem not_covers_of_opensIn {around : Stretch} (houter : outer ∈ classHeads file.masked)
    (hinner : inner ∈ classHeads file.masked) (haround : around ∈ classBody? outer)
    (hbody : body ∈ classBody? inner) (hopens : body.OpensIn around) (h : e ∈ file.entries outer) :
    ¬body.Covers e.1 := by
  rcases mem_entries_iff.mp h with
    ⟨inside, hinside, located, hlocated, h⟩ | ⟨body', hbody', member, hmember, h⟩
  · obtain ⟨hne, _, hholds⟩ := holdsAt_of_constructorReport? hlocated h
    have hlt := stop_lt_of_mem_classBody? hinside haround
    obtain ⟨before, _, -, hstart, -⟩ := hopens
    rintro ⟨hle, -⟩
    have hin := (hholds.covers hne).2
    omega
  · cases Option.mem_unique haround hbody'
    obtain ⟨-, _, hholds, hdepth⟩ := holdsAt_of_bodyReport? hmember h
    exact hholds.not_covers hdepth (stands_of_mem_classBody? houter haround)
      (stands_of_mem_classBody? hinner hbody) hopens

theorem KeepsApart.not_contains (h : file.KeepsApart outer inner)
    (houter : outer ∈ classHeads file.masked) (hinner : inner ∈ classHeads file.masked)
    (hmem : e ∈ file.entries outer) : ¬ClassContains inner e.1 := by
  rintro (⟨inside, hinside, hcovers⟩ | ⟨body, hbody, hcovers⟩)
  · exact h.constructor inside hinside e hmem hcovers
  · by_cases hopens : ∃ around ∈ classBody? outer, body.OpensIn around
    · obtain ⟨around, haround, hopens⟩ := hopens
      exact not_covers_of_opensIn houter hinner haround hbody hopens hmem hcovers
    · exact h.body body hbody hopens e hmem hcovers

/-- Every property has one owner, the innermost class that contains it, exactly if each class keeps
apart from the classes behind it. -/
theorem oneOwner_iff (file : FileContext) : file.OneOwner ↔
    ∀ outer ∈ file.classes, ∀ inner ∈ file.classes, outer.stop < inner.stop →
      file.KeepsApart outer inner := by
  constructor
  · intro h outer houter inner hinner hlt
    have hout : ∀ e ∈ file.entries outer, ¬ClassContains inner e.1 := by
      intro e hmem hcontains
      have hentry := h.innermost ⟨outer, e.1, e.2⟩ (mem_propertyEntries_iff.mpr ⟨houter, hmem⟩)
      exact absurd (hentry.2 inner hinner hcontains) (Nat.not_le_of_lt hlt)
    exact ⟨fun inside hinside e hmem hcovers => hout e hmem (.inl ⟨inside, hinside, hcovers⟩),
      fun body hbody _ e hmem hcovers => hout e hmem (.inr ⟨body, hbody, hcovers⟩)⟩
  · intro h
    have hout : ∀ outer ∈ file.classes, ∀ inner ∈ file.classes, outer.stop < inner.stop →
        ∀ e ∈ file.entries outer, ¬ClassContains inner e.1 :=
      fun outer houter inner hinner hlt e hmem =>
        (h outer houter inner hinner hlt).not_contains (List.mem_of_mem_filter houter)
          (List.mem_of_mem_filter hinner) hmem
    refine ⟨?_, fun entry hentry => ?_⟩
    · have hplaces : file.propertyEntries.map (·.place) =
          file.classes.flatMap fun found => (file.entries found).map Prod.fst := by
        simp [propertyEntries, List.map_flatMap, Function.comp_def]
      rw [hplaces, List.nodup_flatMap]
      refine ⟨fun found _ => ?_, ?_⟩
      · exact List.pairwise_map.mpr ((pairwise_entries file found).imp Nat.ne_of_lt)
      · have hclasses : file.classes.Pairwise fun a b => a.stop < b.stop :=
          (pairwise_classHeads file.masked).filter _
        refine (List.Pairwise.and_mem.mp hclasses).imp ?_
        rintro outer inner ⟨houter, hinner, hlt⟩ place hplace hplace'
        obtain ⟨e, he, rfl⟩ := List.mem_map.mp hplace
        obtain ⟨e', he', heq⟩ := List.mem_map.mp hplace'
        exact hout outer houter inner hinner hlt e he (heq ▸ classContains_of_mem_entries he')
    · obtain ⟨hreporter, hmem⟩ := mem_propertyEntries_iff.mp hentry
      refine ⟨classContains_of_mem_entries hmem, fun found hfound hcontains => ?_⟩
      by_contra hlt
      exact hout _ hreporter found hfound (Nat.lt_of_not_le hlt) _ hmem hcontains

/-- A class without body in the body of another one: its constructor stands in parentheses, so that
its property shows among the members of the outer class too. -/
def nestedConstructor : List Char :=
  "package app\nclass Outer \x7b\n  class Inner(@ExposeSignal val level: BindableSignal<Int>)\n\x7d\n".toList

theorem nestedConstructor_twice :
    let file := ofText "app/Outer.kt" nestedConstructor .markToInject
    (file.propertyEntries.map fun entry => (entry.property.owner, entry.place)) =
      [("Outer", 58), ("Inner", 58)] ∧ ¬file.OneOwner := by
  intro file
  have hentries : (file.propertyEntries.map fun entry => (entry.property.owner, entry.place)) =
      [("Outer", 58), ("Inner", 58)] := by decide +kernel
  refine ⟨hentries, fun h => ?_⟩
  have hplaces := congrArg (List.map Prod.snd) hentries
  rw [List.map_map] at hplaces
  have honce := h.once
  rw [show file.propertyEntries.map (·.place) = [58, 58] from hplaces] at honce
  exact absurd honce (by decide)

end FileContext

end ComponentWiring.Source
