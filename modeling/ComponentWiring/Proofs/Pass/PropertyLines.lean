import ComponentWiring.Proofs.Pass.PropertyOwners
import ComponentWiring.Proofs.Source.VisibleMembers

/-!
On which line a bound property of a class body is reported. The property is read among the own
members of the body, and its line is taken from the text without comments. Neither hiding what stands
in inner braces nor blanking comments moves a byte or a line break, and so the line is that of the
name in the file (`FileContext.exists_name_of_mem_bodyReports`).

The line is taken where the property ends. What is read behind the name does not go beyond its line,
and it stands in the body just as it shows, so that the end is a place of the body as well.
-/

namespace ComponentWiring.Source

open Text

/-- Among the own members of a body a property is declared at a place: its name shows there behind a
property word. -/
def Stretch.Declares (s : Stretch) (name : List Char) (place : Nat) : Prop :=
  ∃ front behind, ownMembers s.text = front ++ (name ++ behind) ∧
    EndsWithWord propertyWords front ∧ place = s.start + byteLength front

namespace FileContext

/-- The marked properties of a class body, each with the place of its name. -/
def bodyReports (file : FileContext) (owner : String) (body : Stretch) : List (Nat × Property) :=
  (occurrences locatedProperty? (ownMembers body.text)).filterMap (file.bodyReport? owner body)

variable {file : FileContext} {owner : String} {body : Stretch} {e : Nat × Property}

/-- The line of a property of a body is that of the place where it ends. -/
theorem location_of_bodyReport? {member : Occurrence (PropertyText × Nat)}
    (h : file.bodyReport? owner body member = some e) :
    e.2.location = file.locate (body.start + member.stop) := by
  simp only [bodyReport?] at h
  split_ifs at h
  cases h
  rfl

/-- A property of a class body is declared at its place. There its name stands in the file, and it
is reported on the line of this place. -/
theorem exists_name_of_mem_bodyReports {path : String} {text : List Char} {fallback : Convention}
    {found : Occurrence ClassHead} (hfound : found ∈ classHeads (blankComments text))
    (hbody : body ∈ classBody? found)
    (h : e ∈ (ofText path text fallback).bodyReports owner body) :
    body.Declares e.2.name.toList e.1 ∧
      ∃ before after, text = before ++ (e.2.name.toList ++ after) ∧ e.1 = byteLength before ∧
        e.2.location = ⟨path, lineBreaks before + 1⟩ := by
  obtain ⟨member, hmember, hreport⟩ := List.mem_filterMap.mp h
  obtain ⟨hname, hplace, -⟩ := eq_of_bodyReport? hreport
  obtain ⟨front, name, more, hlocated⟩ := exists_locatedIn hmember
  rw [← hlocated.name_toList, ← hname] at hlocated
  rw [hlocated.stop_sub] at hplace
  refine ⟨⟨front, more ++ member.rest, hlocated.eq, hlocated.word, hplace⟩, ?_⟩
  obtain ⟨inside, after, htext, hlength, -⟩ := hlocated.exists_in_body
  -- The body stands behind its brace, in the text without comments.
  have hstands : body.Stands Delimiters.braces.opening Delimiters.braces.closing (byteLength [])
      (blankComments text) := stands_of_mem_classBody? hfound hbody
  obtain ⟨before, behind, hmasked, hstart, -⟩ := hstands.encloses rfl
  have hbehind : blankComments text = ((before ++ ['\x7b']) ++ inside) ++
      (e.2.name.toList ++ (more ++ (after ++ '\x7d' :: behind))) := by
    rw [← List.nil_append (blankComments text), hmasked, htext]
    simp [Delimiters.braces]
  have hsolid : ∀ c ∈ e.2.name.toList, isBlank c = false := fun c hc =>
    isBlank_of_isWordChar (hlocated.isName.2 c hc)
  obtain ⟨before', after', htext', hlength', hline⟩ :=
    exists_word_of_blankComments hbehind hlocated.isName.ne_nil hsolid
      fun hbreak => (hlocated.plain _ hbreak).1 rfl
  have hstart' : body.start = byteLength (before ++ ['\x7b']) := hstart
  refine ⟨before', after', htext', ?_, ?_⟩
  · rw [hplace, hlength', hstart', byteLength_append _ inside, hlength]
  · have hstop : body.start + member.stop =
        byteLength (((before ++ ['\x7b']) ++ inside) ++ (e.2.name.toList ++ more)) := by
      rw [hstart', hlocated.stop, hlocated.back, byteLength_append _ (_ ++ more),
        byteLength_append _ inside, hlength, Nat.add_assoc]
    rw [location_of_bodyReport? hreport, hstop]
    exact congrArg (Location.mk path) hline

end FileContext

/-- What stands in inner braces is hidden, and nothing else; every byte stays at its place. The own
members of a body show every byte as it is or as a space, and line breaks for line breaks only. A
character is written where it shows, and spaces otherwise. Hiding a second time changes nothing. So
the properties that a body reports have the lines of their names in the file. -/
theorem ownMembers_keepsPlaces (body : List Char) :
    List.Forall₂ Shows (utf8Bytes body) (utf8Bytes (ownMembers body)) ∧
    (∀ before c after, body = before ++ c :: after →
      ∃ front written behind, ownMembers body = front ++ (written ++ behind) ∧
        byteLength front = byteLength before ∧
        (Visible before c ∧ written = [c] ∨
          ¬Visible before c ∧ written = List.replicate c.utf8Size ' ')) ∧
    ownMembers (ownMembers body) = ownMembers body ∧
    ∀ path text fallback, let file := FileContext.ofText path text fallback
      ∀ found ∈ classHeads file.masked, ∀ s ∈ classBody? found,
        (file.bodyReports found.value.name s).map Prod.snd =
            file.bodyProperties found.value.name s ∧
          ∀ e ∈ file.bodyReports found.value.name s,
            s.Declares e.2.name.toList e.1 ∧
            ∃ before after, text = before ++ (e.2.name.toList ++ after) ∧
              e.1 = byteLength before ∧ e.2.location = ⟨path, lineBreaks before + 1⟩ := by
  refine ⟨(blanked_ownMembers body).forall₂_utf8Bytes, ?_, ownMembers_ownMembers body, ?_⟩
  · rintro before c after rfl
    exact exists_written before c after
  · intro path text fallback file found hfound s hs
    exact ⟨FileContext.map_snd_bodyReport? file found.value.name s, fun e he =>
      FileContext.exists_name_of_mem_bodyReports hfound hs he⟩

/-- A property between inner braces has the name of one that is declared directly. A literal there
holds a brace, and a comment behind it a character of two bytes. -/
def boilerText : List Char :=
  ("class Boiler \x7b\n  init \x7b val mark = \"\x7d\"\n    @ExposeSignal val level = 1 \x7d\n" ++
    "  @ExposeSignal\n  val /* ü */ level: BindableSignal<Int> = of(0)\n\x7d\n").toList

/-- Between inner braces a character of two bytes leaves two spaces, and the property of the boiler
is reported on the line of its own name. -/
theorem ownMembers_keepsPlaces_boiler :
    (¬Visible ['\x7b'] 'ü' ∧ ∃ front written behind,
      ownMembers ['\x7b', 'ü', '\x7d', 'z'] = front ++ (written ++ behind) ∧
        byteLength front = 1 ∧ written = [' ', ' ']) ∧
    let file := FileContext.ofText "app/Boiler.kt" boilerText .markToInject
    ∃ found ∈ classHeads file.masked, ∃ s ∈ classBody? found,
      ∃ e ∈ file.bodyReports found.value.name s,
        e.2.name = "level" ∧ e.1 = 104 ∧ e.2.location = ⟨"app/Boiler.kt", 5⟩ ∧
        s.Declares e.2.name.toList e.1 ∧
        ∃ before after, boilerText = before ++ (e.2.name.toList ++ after) ∧
          e.1 = byteLength before ∧ e.2.location = ⟨"app/Boiler.kt", lineBreaks before + 1⟩ := by
  obtain ⟨-, hwritten, -, hlines⟩ := ownMembers_keepsPlaces ['\x7b', 'ü', '\x7d', 'z']
  have hhidden : ¬Visible ['\x7b'] 'ü' := by
    rw [visible_iff]
    decide
  refine ⟨⟨hhidden, ?_⟩, ?_⟩
  · obtain ⟨front, written, behind, heq, hfront, hcase⟩ := hwritten ['\x7b'] 'ü' ['\x7d', 'z'] rfl
    exact ⟨front, written, behind, heq, hfront, (hcase.resolve_left fun h => hhidden h.1).2⟩
  · intro file
    have hread : (classHeads file.masked).map (fun found => (classBody? found).map fun s =>
        (file.bodyReports found.value.name s).map fun e => (e.1, e.2.name, e.2.location)) =
          [some [(104, "level", ⟨"app/Boiler.kt", 5⟩)]] := by decide +kernel
    obtain ⟨found, hheads, hbody⟩ := List.map_eq_singleton_iff.mp hread
    obtain ⟨s, hs, hreports⟩ := Option.map_eq_some_iff.mp hbody
    obtain ⟨e, he, hvalues⟩ := List.map_eq_singleton_iff.mp hreports
    simp only [Prod.mk.injEq] at hvalues
    have hfound : found ∈ classHeads file.masked := by simp [hheads]
    have hmem : e ∈ file.bodyReports found.value.name s := by simp [he]
    exact ⟨found, hfound, s, hs, e, hmem, hvalues.2.1, hvalues.1, hvalues.2.2,
      (hlines "app/Boiler.kt" boilerText .markToInject found hfound s hs).2 e hmem⟩

end ComponentWiring.Source
