import ComponentWiring.Proofs.Source.Balance
import ComponentWiring.Proofs.Source.DefaultAgreement
import ComponentWiring.Proofs.Source.HeaderCases
import ComponentWiring.Proofs.Source.Masking
import ComponentWiring.Proofs.Text.Occurrences
import ComponentWiring.Source.ParameterText

/-!
Where a property stands: the text from its name on, for a property among the members of a class body
(`locatedProperty?`) and for one among the parameters of a constructor (`locatedParameter?`). What is
read is the same as without the place (`property?_eq`, `parameterText?_eq`).

The name comes behind a property word, and what is read behind it is on the same line (`LocatedIn`).
Among the own members of a body both stand where no brace is open, and so they stand in the body
itself (`LocatedIn.exists_in_body`), hence not in the body of another class there
(`braceRun_of_enclosed?`).
-/

namespace ComponentWiring.Source

open Text

/-! ## Inside braces -/

/-- Up to the brace that is looked for, some brace is open. -/
theorem braceRun_of_closingFrom {depth : Nat} {literal : LiteralState} {cs inside left : List Char}
    (h : closingFrom '{' '}' depth literal cs = some (inside, left)) (hdepth : 1 ≤ depth)
    {inner : List Char} (hinner : inner <+: inside) (around : Nat) :
    around < braceRun (around + depth) literal inner := by
  induction inner generalizing depth literal cs inside with
  | nil =>
    rw [braceRun]
    omega
  | cons c inner ih =>
    obtain ⟨more, rfl⟩ := hinner
    obtain rfl := closingFrom_eq_some h
    rw [List.cons_append, List.cons_append, closingFrom_cons (by decide)] at h
    split_ifs at h with hstop
    · simp at h
    · obtain ⟨⟨before, after⟩, hclosing, heq⟩ := Option.map_eq_some_iff.mp h
      simp only [Prod.mk.injEq, List.cons.injEq, true_and] at heq
      obtain ⟨rfl, rfl⟩ := heq
      have hpos : 1 ≤ depthBehind '{' '}' depth literal c := one_le_depthBehind hstop hdepth
      have hbrace : braceDepth (around + depth) literal c =
          around + depthBehind '{' '}' depth literal c := by
        unfold braceDepth depthBehind
        split_ifs <;> omega
      rw [braceRun, hbrace]
      exact ih hclosing hpos (List.prefix_append _ _)

/-- The inside of braces that open outside literals is open everywhere. -/
theorem braceRun_of_enclosed? {before rest inside left inner : List Char}
    (hcode : LiteralState.code.run before = .code)
    (h : enclosed? '{' '}' ('{' :: rest) = some (inside, left)) (hinner : inner <+: inside) :
    braceRun 0 .code (before ++ '{' :: inner) ≠ 0 := by
  rw [enclosed?_cons (by decide)] at h
  have hgo := braceRun_of_closingFrom h (Nat.le_refl 1) hinner (braceRun 0 .code before)
  rw [braceRun_append, hcode]
  exact Nat.ne_of_gt (Nat.lt_of_le_of_lt (Nat.zero_le _) hgo)

/-! ## Properties of a body -/

/-- The text behind modifiers and one of the given words. -/
def behindWords? (allowed words : List String) (cs : List Char) : Option (List Char) :=
  (wordOf? words (readAll (wordOf? allowed) cs).2).map Prod.snd

/-- The text from the name of a property on. -/
def behindPropertyWord? (cs : List Char) : Option (List Char) :=
  behindWords? propertyModifiers propertyWords (annotations cs).2

/-- A property, and the number of bytes from the start of its name to its end. -/
def locatedProperty? : ReaderAt (PropertyText × Nat) := fun previous cs => do
  let (p, left) ← property? previous cs
  let rest ← behindPropertyWord? cs
  return ((p, byteLength rest - byteLength left), left)

/-- A text that ends with one of the given words and the blanks behind it. -/
def EndsWithWord (words : List String) (cs : List Char) : Prop :=
  ∃ front, ∃ word ∈ words, ∃ gap, cs = front ++ (word.toList ++ gap) ∧ gap ≠ [] ∧
    isAllBlank gap = true

theorem EndsWithWord.append {words : List String} {cs : List Char} (h : EndsWithWord words cs)
    (before : List Char) : EndsWithWord words (before ++ cs) := by
  obtain ⟨front, word, hword, gap, rfl, hgap⟩ := h
  exact ⟨before ++ front, word, hword, gap, (List.append_assoc _ _ _).symm, hgap⟩

/-- In front of what stands behind modifiers and a word stands this word. -/
theorem exists_of_behindWords? {allowed words : List String} {cs rest : List Char}
    (h : behindWords? allowed words cs = some rest) :
    ∃ front, cs = front ++ rest ∧ EndsWithWord words front := by
  obtain ⟨⟨word, left⟩, hread, heq⟩ := Option.map_eq_some_iff.mp h
  obtain rfl : left = rest := heq
  obtain ⟨hmem, gap, hne, hblank, hleft⟩ := exists_of_wordOf? hread
  have hsuffix : (readAll (wordOf? allowed) cs).2 <:+ cs :=
    readAll_suffix (fun _ _ hr => suffix_of_wordOf? hr) cs
  obtain ⟨front, hfront⟩ := hsuffix
  refine ⟨front ++ (word.toList ++ gap), ?_, front, word, hmem, gap, rfl, hne, hblank⟩
  rw [← hfront, hleft]
  simp only [List.append_assoc]

theorem exists_of_behindPropertyWord? {cs rest : List Char}
    (h : behindPropertyWord? cs = some rest) :
    ∃ front, cs = front ++ rest ∧ EndsWithWord propertyWords front := by
  obtain ⟨before, hbefore⟩ := annotations_suffix cs
  obtain ⟨front, hfront, hword⟩ := exists_of_behindWords? h
  refine ⟨before ++ front, ?_, hword.append before⟩
  rw [List.append_assoc, ← hfront, hbefore]

/-- What is read of a written type is on one line, in front of any brace. -/
theorem exists_of_propertyType? {cs type left : List Char}
    (h : propertyType? cs = some (type, left)) :
    ∃ more, cs = more ++ left ∧ ∀ c ∈ more, c ≠ '\n' ∧ c ≠ '\x7b' := by
  have hblank {c : Char} (hc : isInlineBlank c = true) : c ≠ '\n' ∧ c ≠ '\x7b' := by
    constructor <;> rintro rfl <;> exact absurd hc (by decide)
  unfold propertyType? at h
  split at h
  · next rest hcolon =>
    simp only at h
    split_ifs at h
    cases h
    refine ⟨cs.takeWhile isInlineBlank ++ ':' :: (rest.takeWhile isInlineBlank ++
      (rest.dropWhile isInlineBlank).takeWhile fun c => c != '=' && c != '\n' && c != '\x7b'),
      ?_, fun c hc => ?_⟩
    · simp only [List.append_assoc, List.cons_append, List.takeWhile_append_dropWhile, ← hcolon]
    · simp only [List.mem_append, List.mem_cons] at hc
      rcases hc with hc | rfl | hc | hc
      · exact hblank (List.mem_takeWhile_imp hc)
      · decide
      · exact hblank (List.mem_takeWhile_imp hc)
      · have htype := List.mem_takeWhile_imp hc
        simp only [Bool.and_eq_true, bne_iff_ne, ne_eq] at htype
        exact ⟨htype.1.2, htype.2⟩
  · cases h

/-- Behind the word of a property come its name and whatever else is read, on the same line. -/
theorem exists_of_property? {previous : Option Char} {cs left : List Char} {p : PropertyText}
    (h : property? previous cs = some (p, left)) : ∃ rest name behind,
      behindPropertyWord? cs = some rest ∧ name? rest = some (name, behind) ∧
        p.name = String.ofList name ∧
          ∃ more, behind = more ++ left ∧ ∀ c ∈ more, c ≠ '\n' ∧ c ≠ '\x7b' := by
  unfold property? at h
  split_ifs at h
  obtain ⟨⟨word, rest⟩, hword, h⟩ := Option.bind_eq_some_iff.mp h
  obtain ⟨⟨name, behind⟩, hname, h⟩ := Option.bind_eq_some_iff.mp h
  refine ⟨rest, name, behind, ?_, hname, ?_⟩
  · exact Option.map_eq_some_iff.mpr ⟨(word, rest), hword, rfl⟩
  · simp only at h
    split at h
    · next type behind' htype =>
      cases h
      exact ⟨rfl, exists_of_propertyType? htype⟩
    · cases h
      exact ⟨rfl, [], rfl, by simp⟩

theorem property?_eq (previous : Option Char) (cs : List Char) :
    property? previous cs = (locatedProperty? previous cs).map fun r => (r.1.1, r.2) := by
  unfold locatedProperty?
  cases h : property? previous cs with
  | none => rfl
  | some r =>
    obtain ⟨rest, _, _, hrest, -⟩ := exists_of_property? h
    simp [hrest]

theorem locatedProperty?_eq_some {previous : Option Char} {cs left : List Char} {p : PropertyText}
    {back : Nat} (h : locatedProperty? previous cs = some ((p, back), left)) :
    property? previous cs = some (p, left) ∧ ∃ rest, behindPropertyWord? cs = some rest ∧
      left <:+ rest ∧ back = byteLength rest - byteLength left := by
  obtain ⟨⟨p', left'⟩, hp, h⟩ := Option.bind_eq_some_iff.mp h
  obtain ⟨rest, hrest, h⟩ := Option.bind_eq_some_iff.mp h
  cases h
  obtain ⟨rest', name, behind, hrest', hname, -, more, hmore, -⟩ := exists_of_property? hp
  cases hrest.symm.trans hrest'
  obtain ⟨-, -, rfl⟩ := name?_eq_some.mp hname
  have hleft : left <:+ rest.dropWhile isWordChar := ⟨more, hmore.symm⟩
  exact ⟨hp, rest, hrest, hleft.trans (List.dropWhile_suffix _), rfl⟩

/-- A located property has its name that many bytes before its end, behind its word, and what
follows the name is on the same line. -/
theorem exists_of_locatedProperty? {previous : Option Char} {cs left : List Char} {p : PropertyText}
    {back : Nat} (h : locatedProperty? previous cs = some ((p, back), left)) :
    ∃ front name more, cs = front ++ (name ++ (more ++ left)) ∧ IsName name ∧
      p.name = String.ofList name ∧ back = byteLength (name ++ more) ∧
        EndsWithWord propertyWords front ∧ ∀ c ∈ more, c ≠ '\n' ∧ c ≠ '\x7b' := by
  obtain ⟨hp, rest, hrest, -, rfl⟩ := locatedProperty?_eq_some h
  obtain ⟨rest', name, behind, hrest', hname, hp', more, rfl, hmore⟩ := exists_of_property? hp
  cases hrest.symm.trans hrest'
  obtain ⟨front, rfl, hword⟩ := exists_of_behindPropertyWord? hrest
  have hbehind : rest = name ++ (more ++ left) := by
    obtain ⟨-, rfl, heq⟩ := name?_eq_some.mp hname
    rw [heq, List.takeWhile_append_dropWhile]
  refine ⟨front, name, more, by rw [hbehind], isName_of_name? hname, hp', ?_, hword, hmore⟩
  rw [hbehind]
  simp only [byteLength_append]
  omega

theorem suffix_of_locatedProperty? (previous : Option Char) (cs : List Char)
    (value : PropertyText × Nat) (left : List Char)
    (h : locatedProperty? previous cs = some (value, left)) : left <:+ cs := by
  obtain ⟨front, name, more, rfl, -⟩ := exists_of_locatedProperty? h
  exact ⟨front ++ (name ++ more), by simp⟩

/-- A property of a text: its name stands behind `front`, which ends with a property word, and
`more` is what else is read of it. -/
structure LocatedIn (cs : List Char) (found : Occurrence (PropertyText × Nat))
    (front name more : List Char) : Prop where
  eq : cs = front ++ (name ++ (more ++ found.rest))
  isName : IsName name
  value : found.value.1.name = String.ofList name
  back : found.value.2 = byteLength (name ++ more)
  stop : found.stop = byteLength front + found.value.2
  word : EndsWithWord propertyWords front
  plain : ∀ c ∈ more, c ≠ '\n' ∧ c ≠ '\x7b'

theorem exists_locatedIn {cs : List Char} {found : Occurrence (PropertyText × Nat)}
    (h : found ∈ occurrences locatedProperty? cs) :
    ∃ front name more, LocatedIn cs found front name more := by
  obtain ⟨before, taken, rfl, hstop, hread⟩ :=
    exists_taken_of_mem_occurrences suffix_of_locatedProperty? h
  obtain ⟨front, name, more, htaken, hname, hvalue, hback, hword, hmore⟩ :=
    exists_of_locatedProperty? hread
  obtain rfl : taken = front ++ (name ++ more) :=
    List.append_cancel_right (by simpa using htaken)
  refine ⟨before ++ front, name, more, by simp, hname, hvalue, hback, ?_, hword.append before,
    hmore⟩
  rw [hback, hstop]
  simp only [byteLength_append]
  omega

namespace LocatedIn

variable {cs front name more : List Char} {found : Occurrence (PropertyText × Nat)}

theorem name_toList (h : LocatedIn cs found front name more) :
    found.value.1.name.toList = name := by
  rw [h.value, String.toList_ofList]

theorem stop_sub (h : LocatedIn cs found front name more) :
    found.stop - found.value.2 = byteLength front := by
  rw [h.stop, Nat.add_sub_cancel]

theorem back_pos (h : LocatedIn cs found front name more) : 0 < found.value.2 := by
  have hpos := byteLength_pos h.isName.ne_nil
  rw [h.back, byteLength_append]
  omega

/-- A property among the own members of a body stands in the body, at the same byte and where no
brace is open. -/
theorem exists_in_body {body : List Char} (h : LocatedIn (ownMembers body) found front name more) :
    ∃ before after, body = before ++ (name ++ (more ++ after)) ∧
      byteLength before = byteLength front ∧ braceRun 0 .code before = 0 := by
  -- The first character of the name is visible, and with it all that is read on the line.
  obtain ⟨a, name, rfl⟩ := List.exists_cons_of_ne_nil h.isName.ne_nil
  have hname {c : Char} (hc : c ∈ a :: name) : isBlank c = false ∧ c ≠ '\x7b' ∧ c ≠ '\x7d' := by
    have hword := h.isName.2 c hc
    refine ⟨isBlank_of_isWordChar hword, ?_, ?_⟩ <;> rintro rfl <;> exact absurd hword (by decide)
  obtain ⟨hsolid, hopen, hclose⟩ := hname List.mem_cons_self
  have hmembers := h.eq
  rw [List.cons_append, ← List.append_assoc] at hmembers
  obtain ⟨before, cs, hbody, hlength, hdepth, hcs⟩ :=
    exists_of_directMembersFrom_eq hmembers hsolid hopen hclose
  have hread := takeWhile_directMembersFrom (p := (· != '\x7b')) (by decide)
    ((LiteralState.code.run before).step a) cs
  have hplain : ∀ c ∈ name ++ more, (c != '\x7b') = true := by
    intro c hc
    refine bne_iff_ne.mpr ?_
    rcases List.mem_append.mp hc with hc | hc
    · exact (hname (List.mem_cons_of_mem a hc)).2.1
    · exact (h.plain c hc).2
  rw [← hcs, List.takeWhile_append_of_pos hplain] at hread
  obtain ⟨after, rfl⟩ : name ++ more <+: cs :=
    (List.prefix_append _ _).trans (hread ▸ List.takeWhile_prefix _)
  exact ⟨before, after, by rw [hbody]; simp, hlength, hdepth⟩

end LocatedIn

/-- Each property ends before the name of the next one. -/
theorem pairwise_locatedProperties (cs : List Char) :
    (occurrences locatedProperty? cs).Pairwise fun a b => a.stop + b.value.2 ≤ b.stop := by
  refine pairwise_occurrencesFrom Prod.snd (fun previous cs value left hread => ?_)
    (fun previous cs value left hread => ?_) 0 0 none cs
  all_goals obtain ⟨front, name, more, rfl, hname, -, hback, -⟩ := exists_of_locatedProperty? hread
  · refine ⟨suffix_of_locatedProperty? _ _ _ _ hread, ?_⟩
    rw [hback]
    simp only [byteLength_append]
    omega
  · have hpos := List.length_pos_iff.mpr hname.ne_nil
    simp only [List.length_append]
    omega

/-! ## Parameters of a constructor -/

/-- A constructor parameter, and the text from its name on. -/
def locatedParameter? (part : List Char) : Option (ParameterText × List Char) := do
  let (annotations, rest) := annotations part
  let (modifiers, isProperty, named, name, rest) ←
    modifiersThen parameterModifiers
      (optionalPropertyWord fun cs => (typedName? cs).map fun r => (cs, r)) rest
  return (⟨annotations, modifiers, isProperty, String.ofList name, rest⟩, named)

theorem withModifiers_map {α β : Type} (finish : List Char → Option α) (f : α → β)
    (allowed : List String) (fuel : Nat) (cs : List Char) :
    withModifiers allowed (fun cs => (finish cs).map f) fuel cs =
      (withModifiers allowed finish fuel cs).map fun r => (r.1, f r.2) := by
  induction fuel generalizing cs with
  | zero => simp [withModifiers, Function.comp_def]
  | succ fuel ih =>
    rw [withModifiers, withModifiers]
    cases wordOf? allowed cs with
    | none => simp [Function.comp_def]
    | some r =>
      obtain ⟨word, rest⟩ := r
      simp only [ih]
      cases withModifiers allowed finish fuel rest <;> simp [Function.comp_def]

theorem optionalPropertyWord_map {α β : Type} {finish : List Char → Option α} (f : α → β)
    (cs : List Char) : optionalPropertyWord (fun cs => (finish cs).map f) cs =
      (optionalPropertyWord finish cs).map fun r => (r.1, f r.2) := by
  unfold optionalPropertyWord
  cases wordOf? propertyWords cs with
  | none => simp [Function.comp_def]
  | some r =>
    obtain ⟨word, rest⟩ := r
    cases h : finish rest <;> simp [h, Function.comp_def]

theorem parameterText?_eq (part : List Char) :
    parameterText? part = (locatedParameter? part).map Prod.fst := by
  have hreader : typedName? = fun cs => ((typedName? cs).map fun r => (cs, r)).map Prod.snd := by
    funext cs
    simp [Function.comp_def]
  have hword : optionalPropertyWord typedName? = fun cs =>
      (optionalPropertyWord (fun cs => (typedName? cs).map fun r => (cs, r)) cs).map
        fun r => (r.1, r.2.2) := by
    funext cs
    conv_lhs => rw [hreader]
    exact optionalPropertyWord_map Prod.snd cs
  simp only [parameterText?, locatedParameter?, modifiersThen, hword]
  rw [withModifiers_map (optionalPropertyWord fun cs => (typedName? cs).map fun r => (cs, r))
    fun r => (r.1, r.2.2)]
  cases withModifiers parameterModifiers (optionalPropertyWord fun cs =>
    (typedName? cs).map fun r => (cs, r)) _ _ <;> rfl

/-- The name of a located parameter stands in the part. -/
theorem exists_of_locatedParameter? {part named : List Char} {p : ParameterText}
    (h : locatedParameter? part = some (p, named)) :
    named <:+ part ∧ ∃ name behind, named = name ++ behind ∧ IsName name ∧
      p.name = String.ofList name := by
  obtain ⟨⟨modifiers, isProperty, named', name, rest⟩, hread, heq⟩ := Option.bind_eq_some_iff.mp h
  cases heq
  obtain ⟨-, mid, hmodifiers, hmid⟩ := modified_of_withModifiers hread
  obtain ⟨last, hword, hlast⟩ := modified_of_optionalPropertyWord hmid
  obtain ⟨r, htyped, heq⟩ := Option.map_eq_some_iff.mp hlast
  cases heq
  obtain ⟨left, hcolon, -, -⟩ := typedName?_eq_some.mp htyped
  obtain ⟨behind, hname, -⟩ := nameAndColon?_eq_some.mp hcolon
  refine ⟨hword.suffix.trans (hmodifiers.suffix.trans (annotations_suffix part)), name, behind, ?_,
    isName_of_name? hname, rfl⟩
  obtain ⟨-, rfl, rfl⟩ := name?_eq_some.mp hname
  exact (List.takeWhile_append_dropWhile ..).symm

end ComponentWiring.Source
