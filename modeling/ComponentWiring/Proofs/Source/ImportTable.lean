import ComponentWiring.Model.Declaration
import ComponentWiring.Proofs.Keyed
import ComponentWiring.Proofs.Text.Cutting
import ComponentWiring.Proofs.Text.Occurrences
import ComponentWiring.Source.Imports

/-!
Names in the table of imports. Every import line but one with a star records a pair of names, and of
several lines for one name the last one counts (`aliases_ofText`). From this follows what a written
name stands for: a name whose first part is imported for what that import says, or a member of it
(`resolve_append`), a simple name that no alias explains for something with this simple name
(`lastPart_resolve`).
-/

namespace ComponentWiring.Source

open Text TypeExpr

/-! ## Import lines -/

/-- The name that an import line explains, and the qualified name it stands for. -/
def ImportLine.entry? : ImportLine → Option (String × String)
  | .single qualified givenName => some (givenName.getD (lastPart qualified), qualified)
  | .star _ => none

/-- The name that an import line explains. -/
def ImportLine.name? (line : ImportLine) : Option String :=
  line.entry?.map (·.1)

theorem ImportLine.entry?_eq_some {line : ImportLine} {name qualified : String} :
    line.entry? = some (name, qualified) ↔
      ∃ givenName, line = .single qualified givenName ∧
        givenName.getD (lastPart qualified) = name := by
  cases line with
  | single imported givenName =>
    simp only [ImportLine.entry?, Option.some.injEq, Prod.mk.injEq, ImportLine.single.injEq]
    constructor
    · rintro ⟨rfl, rfl⟩
      exact ⟨givenName, ⟨rfl, rfl⟩, rfl⟩
    · rintro ⟨given, ⟨rfl, rfl⟩, rfl⟩
      exact ⟨rfl, rfl⟩
  | star package => simp [ImportLine.entry?]

namespace Imports

variable {cs : List Char} {name qualified : String}

/-! ### One line -/

theorem package_add (table : Imports) (line : ImportLine) :
    (table.add line).package = table.package := by
  cases line with
  | single imported givenName => rfl
  | star package =>
    rw [add, insertStar]
    split <;> rfl

theorem aliases_add (table : Imports) (line : ImportLine) :
    (table.add line).aliases =
      line.entry?.elim table.aliases fun entry => table.aliases.insert entry.1 entry.2 := by
  cases line with
  | single imported givenName => rfl
  | star package =>
    rw [add, insertStar]
    split <;> rfl

theorem mem_stars_add {table : Imports} {line : ImportLine} {star : String}
    (h : star ∈ (table.add line).stars) : star ∈ table.stars ∨ line = .star star := by
  cases line with
  | single imported givenName => exact .inl h
  | star package =>
    rw [add, insertStar] at h
    split at h
    · exact .inl h
    · rw [List.mem_append, List.mem_singleton] at h
      exact h.imp_right (congrArg ImportLine.star ·.symm)

/-! ### A whole text -/

/-- The package of a text is the one that it declares. -/
theorem package_ofText (cs : List Char) : (Imports.ofText cs).package = declaredPackage cs :=
  List.foldlRecOn (motive := fun table => table.package = declaredPackage cs) (importLines cs)
    Imports.add rfl fun table htable line _ => (package_add table line).trans htable

/-- A package is written with word characters and dots. -/
theorem isDottedChar_of_mem_package {c : Char} (h : c ∈ (Imports.ofText cs).package.toList) :
    isDottedChar c = true := by
  rw [package_ofText, declaredPackage] at h
  split at h
  · cases h
  · next found others hfound =>
    obtain ⟨before, after, -, hread⟩ := exists_of_mem_occurrences (hfound ▸ List.mem_cons_self)
    have hline : ∃ cs, packageLine? cs = some (found.value, found.rest) := by
      unfold atLineStart at hread
      split at hread
      · exact ⟨_, hread⟩
      · exact ⟨_, hread⟩
      · cases hread
    obtain ⟨cs, hline⟩ := hline
    obtain ⟨_, -, hline⟩ := Option.bind_eq_some_iff.mp hline
    obtain ⟨rest, -, hline⟩ := Option.bind_eq_some_iff.mp hline
    obtain ⟨-, hname⟩ := Option.ite_none_left_eq_some.mp hline
    rw [String.toList_ofList, ← (Prod.mk.inj (Option.some.inj hname)).1] at h
    exact List.mem_takeWhile_imp h

/-- The table of a text records its import lines one after the other. -/
theorem aliases_ofText (cs : List Char) :
    (Imports.ofText cs).aliases = Keyed.ofList ((importLines cs).filterMap ImportLine.entry?) := by
  rw [Keyed.ofList, List.foldl_filterMap]
  refine (List.foldl_hom (l := importLines cs) aliases fun table line => ?_).symm
  rw [aliases_add]
  cases line.entry? <;> rfl

/-- What a name is imported for is said by one of the lines. -/
theorem exists_line_of_imported? (h : (Imports.ofText cs).imported? name = some qualified) :
    ∃ givenName, ImportLine.single qualified givenName ∈ importLines cs ∧
      givenName.getD (lastPart qualified) = name := by
  rw [imported?, aliases_ofText] at h
  obtain ⟨line, hline, hentry⟩ := List.mem_filterMap.mp (Keyed.mem_of_get?_ofList h)
  obtain ⟨givenName, rfl, hname⟩ := ImportLine.entry?_eq_some.mp hentry
  exact ⟨givenName, hline, hname⟩

/-- A package that is imported as a whole is named by one of the lines. -/
theorem exists_line_of_mem_stars {star : String} (h : star ∈ (Imports.ofText cs).stars) :
    ImportLine.star star ∈ importLines cs := by
  refine (List.foldlRecOn (motive := fun table => star ∈ table.stars → .star star ∈ importLines cs)
    (importLines cs) Imports.add (fun h => absurd h List.not_mem_nil)
    fun table htable line hline h => ?_) h
  rcases mem_stars_add h with h | rfl
  · exact htable h
  · exact hline

/-- The last line for a name says what it is imported for. -/
theorem imported?_of_lastLine {before after : List ImportLine} {givenName : Option String}
    (hlines : importLines cs = before ++ .single qualified givenName :: after)
    (hlast : ∀ line ∈ after, line.name? ≠ some (givenName.getD (lastPart qualified))) :
    (Imports.ofText cs).imported? (givenName.getD (lastPart qualified)) = some qualified := by
  have hnone : (after.filterMap ImportLine.entry?).reverse.lookup
      (givenName.getD (lastPart qualified)) = none := by
    refine List.lookup_eq_none_iff.mpr fun entry hmem => ?_
    obtain ⟨line, hline, hentry⟩ := List.mem_filterMap.mp (List.mem_reverse.mp hmem)
    have hname : entry.1 ≠ givenName.getD (lastPart qualified) := by
      simpa [ImportLine.name?, hentry] using hlast line hline
    simpa using hname.symm
  have hentries : (ImportLine.single qualified givenName :: after).filterMap ImportLine.entry? =
      (givenName.getD (lastPart qualified), qualified) :: after.filterMap ImportLine.entry? := rfl
  rw [imported?, aliases_ofText, Keyed.get?_ofList, hlines, List.filterMap_append, hentries,
    List.reverse_append, List.reverse_cons, List.lookup_append, List.lookup_append, hnone]
  simp

end Imports

/-! ## What a written name stands for -/

theorem splitLast_member {front name : String} (hname : '.' ∉ name.toList) :
    splitLast '.' (front ++ "." ++ name).toList = some (front.toList, name.toList) := by
  have htoList : (front ++ "." ++ name).toList = front.toList ++ '.' :: name.toList := by
    simp
  rw [htoList, splitLast_append hname]

theorem lastPart_append {front name : String} (hname : '.' ∉ name.toList) :
    lastPart (front ++ "." ++ name) = name := by
  rw [lastPart, afterLast, splitLast_member hname]
  exact String.ofList_toList

theorem packagePart?_append {front name : String} (hname : '.' ∉ name.toList) :
    packagePart? (front ++ "." ++ name) = some front := by
  rw [packagePart?, splitLast_member hname]
  exact congrArg some String.ofList_toList

/-- What stands before a dot does not matter for the last part. -/
theorem lastPart_append_dot (front back : String) :
    lastPart (front ++ "." ++ back) = lastPart back := by
  have htoList : (front ++ "." ++ back).toList = front.toList ++ '.' :: back.toList := by simp
  by_cases hdot : '.' ∈ back.toList
  · obtain ⟨before, after, hsplit⟩ := exists_splitLast_of_mem hdot
    have hback := splitLast_eq_some hsplit
    have hafter := not_mem_of_splitLast hsplit
    have hwhole : splitLast '.' (front.toList ++ '.' :: back.toList) =
        some (front.toList ++ '.' :: before, after) := by
      rw [hback, ← List.cons_append, ← List.append_assoc]
      exact splitLast_append hafter _
    rw [lastPart, lastPart, htoList, afterLast, afterLast, hwhole, hsplit]
  · rw [lastPart_append hdot, lastPart, afterLast, splitLast_eq_none hdot, String.ofList_toList]

theorem dot_not_mem_lastPart (name : String) : '.' ∉ (lastPart name).toList := by
  rw [lastPart, String.toList_ofList]
  exact not_mem_afterLast _ _

theorem lastPart_eq_self {name : String} (hname : '.' ∉ name.toList) : lastPart name = name := by
  rw [lastPart, afterLast, splitLast_eq_none hname]
  exact String.ofList_toList

theorem lastPart_qualify {name : String} (hname : '.' ∉ name.toList) (package : String) :
    lastPart (qualify package name) = name := by
  rw [qualify]
  split
  · exact lastPart_eq_self hname
  · exact lastPart_append hname

namespace Imports

variable {table : Imports} {name qualified : String}

/-- A name whose first part is imported stands for what is imported, or for a member of it. -/
theorem resolve_append {head : String} {members : List Char} (hhead : '.' ∉ head.toList)
    (hmembers : ∀ c ∈ members.head?, c = '.') (h : table.imported? head = some qualified) :
    table.resolve (String.ofList (head.toList ++ members)) =
      qualified ++ String.ofList members := by
  rw [resolve, String.toList_ofList]
  cases members with
  | nil =>
    rw [List.append_nil, splitFirst_eq_none hhead, String.ofList_toList]
    simp [h]
  | cons c rest =>
    obtain rfl : c = '.' := hmembers c rfl
    have hmember : "." ++ String.ofList rest = String.ofList ('.' :: rest) := by
      rw [show ('.' :: rest) = ".".toList ++ rest from rfl, String.ofList_append,
        String.ofList_toList]
    rw [splitFirst_append hhead]
    simp only [String.ofList_toList, h]
    rw [String.append_assoc, hmember]

theorem resolve_of_imported? (hname : '.' ∉ name.toList)
    (h : table.imported? name = some qualified) : table.resolve name = qualified := by
  have hself : table.resolve (String.ofList (name.toList ++ [])) = qualified ++ String.ofList [] :=
    resolve_append hname (by simp) h
  simpa using hself

/-- What a simple name stands for if nothing is imported under it: a type that every file sees, a
known type of a package that is imported as a whole, or a member of the file's own package. -/
theorem resolve_cases (hname : '.' ∉ name.toList) (h : table.imported? name = none) :
    (∃ qualified, builtin? name = some qualified ∧ table.resolve name = qualified) ∨
    (∃ star ∈ table.stars, isKnownType (star ++ "." ++ name) = true ∧
      table.resolve name = star ++ "." ++ name) ∨
    table.resolve name = qualify table.package name := by
  rw [resolve, splitFirst_eq_none hname]
  simp only [h]
  cases hbuiltin : builtin? name with
  | some found => exact .inl ⟨found, rfl, rfl⟩
  | none =>
    cases hfind : (table.stars.map (· ++ "." ++ name)).find? isKnownType with
    | some found =>
      obtain ⟨star, hstar, rfl⟩ := List.mem_map.mp (List.mem_of_find?_eq_some hfind)
      exact .inr (.inl ⟨star, hstar, List.find?_some hfind, rfl⟩)
    | none => exact .inr (.inr rfl)

theorem mem_builtinTypes (h : builtin? name = some qualified) :
    (name, qualified) ∈ builtinTypes := by
  obtain ⟨before, after, heq, -⟩ := List.lookup_eq_some_iff.mp h
  rw [heq]
  exact List.mem_append_right _ List.mem_cons_self

theorem lastPart_builtin? (h : builtin? name = some qualified) : lastPart qualified = name := by
  have hall : ∀ entry ∈ builtinTypes, lastPart entry.2 = entry.1 := by decide +kernel
  exact hall (name, qualified) (mem_builtinTypes h)

theorem isBuiltinName_builtin? (h : builtin? name = some qualified) :
    isBuiltinName qualified = true := by
  have hall : ∀ entry ∈ builtinTypes, isBuiltinName entry.2 = true := by decide +kernel
  exact hall (name, qualified) (mem_builtinTypes h)

/-- A simple name that no alias explains stands for something with this simple name. -/
theorem lastPart_resolve (hname : '.' ∉ name.toList)
    (halias : ∀ qualified, table.imported? name = some qualified → lastPart qualified = name) :
    lastPart (table.resolve name) = name := by
  cases himported : table.imported? name with
  | some qualified =>
    rw [resolve_of_imported? hname himported, halias qualified himported]
  | none =>
    obtain ⟨qualified, hbuiltin, heq⟩ | ⟨star, -, -, heq⟩ | heq := resolve_cases hname himported
    · rw [heq, lastPart_builtin? hbuiltin]
    · rw [heq, lastPart_append hname]
    · rw [heq, lastPart_qualify hname]

/-- A written name stands for something with the same last part, unless it is imported. -/
theorem lastPart_resolve_cases (table : Imports) (written : String) :
    lastPart (table.resolve written) = lastPart written ∨
      ∃ name qualified, table.imported? name = some qualified ∧
        lastPart (table.resolve written) = lastPart qualified := by
  cases hsplit : splitFirst '.' written.toList with
  | some parts =>
    obtain ⟨head, rest⟩ := parts
    left
    have hwritten : written = String.ofList head ++ "." ++ String.ofList rest := by
      rw [← String.toList_inj, splitFirst_eq_some hsplit]
      simp
    rw [resolve, hsplit]
    simp only
    split
    · rw [lastPart_append_dot, hwritten, lastPart_append_dot]
    · rfl
  | none =>
    have hdot : '.' ∉ written.toList := not_mem_of_splitFirst hsplit
    cases himported : table.imported? written with
    | some qualified =>
      exact .inr ⟨written, qualified, himported, by rw [resolve_of_imported? hdot himported]⟩
    | none =>
      refine .inl ?_
      rw [lastPart_resolve hdot (by simp [himported]), lastPart_eq_self hdot]

end Imports

/-! ## Dotted names -/

/-- A table whose names are all dotted names. -/
structure Imports.Dotted (table : Imports) : Prop where
  package : ∀ c ∈ table.package.toList, isDottedChar c = true
  imported : ∀ name qualified, table.imported? name = some qualified →
    ∀ c ∈ qualified.toList, isDottedChar c = true
  stars : ∀ star ∈ table.stars, ∀ c ∈ star.toList, isDottedChar c = true

/-- The name or package in an import line. -/
def ImportLine.written : ImportLine → String
  | .single qualified _ => qualified
  | .star package => package

theorem isDottedChar_of_importLine? {cs rest : List Char} {line : ImportLine}
    (h : importLine? cs = some (line, rest)) :
    ∀ c ∈ line.written.toList, isDottedChar c = true := by
  obtain ⟨_, -, h⟩ := Option.bind_eq_some_iff.mp h
  obtain ⟨left, -, h⟩ := Option.bind_eq_some_iff.mp h
  have hname : ∀ c ∈ left.takeWhile isDottedChar, isDottedChar c = true :=
    fun _ => List.mem_takeWhile_imp
  simp only at h
  split at h
  · next package _ hsplit =>
    obtain ⟨-, h⟩ := Option.ite_none_left_eq_some.mp h
    obtain ⟨_, -, h⟩ := Option.bind_eq_some_iff.mp h
    cases h
    intro c hc
    rw [ImportLine.written, String.toList_ofList] at hc
    exact hname c (by rw [splitLast_eq_some hsplit]; exact List.mem_append_left _ hc)
  · obtain ⟨-, h⟩ := Option.ite_none_left_eq_some.mp h
    obtain ⟨_, -, h⟩ := Option.bind_eq_some_iff.mp h
    cases h
    rwa [ImportLine.written, String.toList_ofList]

theorem isDottedChar_of_mem_importLines {cs : List Char} {line : ImportLine}
    (h : line ∈ importLines cs) : ∀ c ∈ line.written.toList, isDottedChar c = true := by
  obtain ⟨found, hfound, rfl⟩ := List.mem_map.mp h
  obtain ⟨before, after, -, hread⟩ := exists_of_mem_occurrences hfound
  unfold atLineStart at hread
  split at hread
  · exact isDottedChar_of_importLine? hread
  · exact isDottedChar_of_importLine? hread
  · cases hread

theorem Imports.dotted_ofText (cs : List Char) : (Imports.ofText cs).Dotted where
  package _ := isDottedChar_of_mem_package
  imported name qualified h := by
    obtain ⟨givenName, hline, -⟩ := exists_line_of_imported? h
    exact isDottedChar_of_mem_importLines hline
  stars star h := isDottedChar_of_mem_importLines (exists_line_of_mem_stars h)

theorem isDottedChar_of_mem_append {front back : String}
    (hfront : ∀ c ∈ front.toList, isDottedChar c = true)
    (hback : ∀ c ∈ back.toList, isDottedChar c = true) :
    ∀ c ∈ (front ++ "." ++ back).toList, isDottedChar c = true := by
  intro c hc
  have hmem : c ∈ front.toList ∨ c = '.' ∨ c ∈ back.toList := by simpa using hc
  rcases hmem with hc | rfl | hc
  · exact hfront c hc
  · rfl
  · exact hback c hc

/-- What a dotted name stands for is a dotted name. -/
theorem Imports.Dotted.resolve {table : Imports} (h : table.Dotted) {written : String}
    (hwritten : ∀ c ∈ written.toList, isDottedChar c = true) :
    ∀ c ∈ (table.resolve written).toList, isDottedChar c = true := by
  cases hsplit : splitFirst '.' written.toList with
  | some parts =>
    obtain ⟨head, rest⟩ := parts
    rw [Imports.resolve, hsplit]
    simp only
    split
    · next qualified himported =>
      refine isDottedChar_of_mem_append (h.imported _ _ himported) fun c hc => hwritten c ?_
      rw [splitFirst_eq_some hsplit]
      simpa using .inr (.inr (by simpa using hc))
    · exact hwritten
  | none =>
    have hdot : '.' ∉ written.toList := not_mem_of_splitFirst hsplit
    cases himported : table.imported? written with
    | some qualified =>
      rw [Imports.resolve_of_imported? hdot himported]
      exact h.imported _ _ himported
    | none =>
      obtain ⟨qualified, hbuiltin, heq⟩ | ⟨star, hstar, -, heq⟩ | heq :=
        Imports.resolve_cases hdot himported
      · have hall : builtinTypes.all (fun entry => entry.2.toList.all isDottedChar) = true := by
          decide +kernel
        rw [heq]
        exact List.all_eq_true.mp (List.all_eq_true.mp hall _ (Imports.mem_builtinTypes hbuiltin))
      · rw [heq]
        exact isDottedChar_of_mem_append (h.stars star hstar) hwritten
      · rw [heq, qualify]
        split
        · exact hwritten
        · exact isDottedChar_of_mem_append h.package hwritten

end ComponentWiring.Source
