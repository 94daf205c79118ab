import ComponentWiring.Proofs.Source.StableParameters
import ComponentWiring.Source.ParameterText

/-!
Where the parts of a parameter list stand. The parts tile the list: one comes behind the other, and
between them there are only blanks and commas (`tiledBy_parameterParts`). A part starts with neither,
so that looking for it behind the one before it finds it where it stands, and nowhere earlier
(`exists_locateParts_cons`). Hence the offsets tile the list as well (`parametersWithOffsets_tile`).
-/

namespace ComponentWiring.Source

open Text

/-- A character that belongs to no part: a blank or a comma. -/
def isBetweenParts (c : Char) : Bool :=
  isBlank c || c == ','

theorem isBetweenParts_iff {c : Char} : isBetweenParts c = true ↔ isBlank c = true ∨ c = ',' := by
  simp [isBetweenParts]

/-- Parts of a text, one behind the other, with blanks and commas around them. -/
inductive TiledBy : List Char → List (List Char) → Prop
  | nil {gap : List Char} (hgap : gap.all isBetweenParts = true) : TiledBy gap []
  | cons {gap part after : List Char} {parts : List (List Char)}
      (hgap : gap.all isBetweenParts = true)
      (hstart : ∀ c ∈ part.head?, isBetweenParts c = false) (h : TiledBy after parts) :
      TiledBy (gap ++ (part ++ after)) (part :: parts)

namespace TiledBy

variable {gap as bs cs part : List Char} {parts others : List (List Char)}

theorem behind (hgap : gap.all isBetweenParts = true) (h : TiledBy cs parts) :
    TiledBy (gap ++ cs) parts := by
  cases h with
  | nil hgap' => exact .nil (by rw [List.all_append, hgap, hgap']; rfl)
  | cons hgap' hstart h =>
    rw [← List.append_assoc]
    exact .cons (by rw [List.all_append, hgap, hgap']; rfl) hstart h

theorem append (has : TiledBy as parts) (hbs : TiledBy bs others) :
    TiledBy (as ++ bs) (parts ++ others) := by
  induction has with
  | nil hgap => exact hbs.behind hgap
  | cons hgap hstart _ ih =>
    rw [List.append_assoc, List.append_assoc]
    exact .cons hgap hstart ih

theorem singleton {before after : List Char} (hbefore : before.all isBetweenParts = true)
    (hstart : ∀ c ∈ part.head?, isBetweenParts c = false)
    (hafter : after.all isBetweenParts = true) : TiledBy (before ++ (part ++ after)) [part] :=
  .cons hbefore hstart (.nil hafter)

/-- Parts of parts tile the text as well. -/
theorem flatMap {f : List Char → List (List Char)} (h : TiledBy cs parts)
    (hf : ∀ part ∈ parts, TiledBy part (f part)) : TiledBy cs (parts.flatMap f) := by
  induction h with
  | nil hgap => exact .nil hgap
  | cons hgap _ _ ih =>
    obtain ⟨hpart, hparts⟩ := List.forall_mem_cons.mp hf
    exact (hpart.append (ih hparts)).behind hgap

/-- Pieces joined by commas. -/
theorem intercalate {f : List Char → List Char} {pieces : List (List Char)}
    (h : ∀ piece ∈ pieces, TiledBy piece [f piece]) :
    TiledBy ([','].intercalate pieces) (pieces.map f) := by
  induction pieces with
  | nil => exact .nil rfl
  | cons piece pieces ih =>
    obtain ⟨hpiece, hpieces⟩ := List.forall_mem_cons.mp h
    cases pieces with
    | nil => rwa [List.intercalate_singleton]
    | cons next pieces =>
      rw [List.intercalate_cons_cons, List.append_assoc]
      exact hpiece.append ((ih hpieces).behind rfl)

theorem dropEmptyLast (h : TiledBy cs parts) : TiledBy cs (dropEmptyLast parts) := by
  induction h with
  | nil hgap => exact .nil hgap
  | @cons gap part after parts hgap hstart h ih =>
    cases parts with
    | nil =>
      rw [Source.dropEmptyLast]
      split
      · next hempty =>
        cases h with
        | nil hafter =>
          rw [List.isEmpty_iff.mp hempty]
          exact (TiledBy.nil hafter).behind hgap
      · exact .cons hgap hstart h
    | cons next parts => exact .cons hgap hstart ih

end TiledBy

/-! ## Parts of a list -/

/-- A text that keeps together and does not start with a blank is no gap at its start. -/
theorem start_of_keeps {part : List Char} (hkeeps : ({} : Nesting).Keeps true part)
    (htrim : trim part = part) : ∀ c ∈ part.head?, isBetweenParts c = false := by
  intro c hc
  obtain ⟨rest, rfl⟩ := List.head?_eq_some_iff.mp hc
  have hsolid : isBlank c = false := by
    have htrimmed : Trimmed (trim (c :: rest)) :=
      trimmed_trim (by rw [htrim]; exact List.cons_ne_nil c rest)
    rw [htrim] at htrimmed
    exact htrimmed.head c rfl
  have hcomma : c ≠ ',' := by
    rintro rfl
    cases hkeeps.1
  rw [isBetweenParts, hsolid, Bool.false_or, beq_eq_false_iff_ne]
  exact hcomma

theorem all_isBetweenParts_of_blank {gap : List Char} (h : isAllBlank gap = true) :
    gap.all isBetweenParts = true := by
  rw [isAllBlank, List.all_eq_true] at h
  rw [List.all_eq_true]
  exact fun c hc => isBetweenParts_iff.mpr (.inl (h c hc))

theorem tiledBy_trim {cs : List Char} (h : ({} : Nesting).Keeps true cs) :
    TiledBy cs [trim cs] := by
  obtain ⟨before, after, hbefore, hafter, hcs⟩ := exists_blanks_of_trim cs
  have htiled := TiledBy.singleton (all_isBetweenParts_of_blank hbefore)
    (start_of_keeps (keeps_trim h) (trim_trim cs)) (all_isBetweenParts_of_blank hafter)
  rwa [← List.append_assoc, ← hcs] at htiled

theorem tiledBy_topLevelParts (cs : List Char) : TiledBy cs (topLevelParts cs) := by
  have hpieces : TiledBy ([','].intercalate (cutFrom true {} cs)) ((cutFrom true {} cs).map trim) :=
    .intercalate fun piece hpiece => tiledBy_trim ((pieces_cutFrom true cs).keeps piece hpiece)
  rw [intercalate_cutFrom] at hpieces
  exact hpieces.dropEmptyLast

theorem tiledBy_parameterParts (cs : List Char) : TiledBy cs (parameterParts cs) := by
  rw [parameterParts_eq]
  refine (tiledBy_topLevelParts cs).flatMap fun fragment hfragment => ?_
  have hkeeps := (pieces_topLevelParts cs).keeps fragment hfragment
  have htrim := trim_of_mem_topLevelParts hfragment
  have hshort := length_le_of_mem_topLevelParts hfragment
  have hwhole : TiledBy fragment [fragment] := by
    have htiled := tiledBy_trim hkeeps
    rwa [htrim] at htiled
  unfold refinedParts
  split
  · exact hwhole
  · split
    · next before after hcut =>
      have hlater := length_lt_of_recut? hcut
      rw [eq_append_of_recut? hcut] at hkeeps ⊢
      have hbefore := tiledBy_trim (Nesting.keeps_append.mp hkeeps).1
      have hafter : TiledBy ([','] ++ after) (parameterParts after) :=
        (tiledBy_parameterParts after).behind rfl
      exact hbefore.append hafter
    · exact hwhole
termination_by cs.length
decreasing_by omega

/-! ## Looking for the parts -/

/-- Whether a byte belongs to a part that stands at an offset. -/
def CoversByte (located : List Char × Nat) (byte : Nat) : Prop :=
  located.2 ≤ byte ∧ byte < located.2 + byteLength located.1

/-- Parts with offsets that tile a text. -/
structure PlacesTile (cs : List Char) (placed : List (List Char × Nat)) : Prop where
  /-- The text goes on with each part at its offset. -/
  stands : ∀ located ∈ placed, ∃ before after,
    cs = before ++ (located.1 ++ after) ∧ located.2 = byteLength before
  /-- Each part ends before the next one starts. -/
  apart : placed.Pairwise fun a b => a.2 + byteLength a.1 ≤ b.2
  /-- A character with a byte outside all parts is a blank or a comma. -/
  gaps : ∀ before c after, cs = before ++ c :: after → ∀ byte, byteLength before ≤ byte →
    byte < byteLength before + c.utf8Size → (∀ located ∈ placed, ¬CoversByte located byte) →
      isBlank c = true ∨ c = ','

section Located

variable {cs : List Char} {parts : List (List Char)}

/-- The first part is found behind nothing but blanks and commas. -/
theorem exists_locateParts_cons {part : List Char} (h : TiledBy cs (part :: parts)) (offset : Nat) :
    ∃ gap after, cs = gap ++ (part ++ after) ∧ gap.all isBetweenParts = true ∧ TiledBy after parts ∧
      locateParts offset cs (part :: parts) = (part, offset + byteLength gap) ::
        locateParts (offset + byteLength gap + byteLength part) after parts := by
  cases h with
  | @cons gap _ after _ hgap hstart h =>
    rcases eq_or_ne part [] with rfl | hne
    · -- An empty part is found at once, in front of the gap.
      have hsplit : splitAtText [] (gap ++ after) = some ([], gap ++ after) := by
        cases gap ++ after <;> rfl
      refine ⟨[], gap ++ after, rfl, rfl, h.behind hgap, ?_⟩
      rw [List.nil_append, locateParts, hsplit]
    · have hnot : ∀ c ∈ part.head?, c ∉ gap := by
        intro c hc hmem
        have hbetween := List.all_eq_true.mp hgap c hmem
        rw [hstart c hc] at hbetween
        cases hbetween
      refine ⟨gap, after, rfl, hgap, h, ?_⟩
      rw [locateParts, splitAtText_append hne hnot]

/-- The parts are all found. -/
theorem map_locateParts (h : TiledBy cs parts) (offset : Nat) :
    (locateParts offset cs parts).map Prod.fst = parts := by
  induction parts generalizing cs offset with
  | nil => rfl
  | cons part parts ih =>
    obtain ⟨gap, after, -, -, hafter, heq⟩ := exists_locateParts_cons h offset
    rw [heq, List.map_cons, ih hafter]

/-- Each part stands at its offset. -/
theorem exists_of_mem_locateParts (h : TiledBy cs parts) {offset start : Nat} {part : List Char}
    (hmem : (part, start) ∈ locateParts offset cs parts) :
    ∃ before after, cs = before ++ (part ++ after) ∧ start = offset + byteLength before := by
  induction parts generalizing cs offset with
  | nil => cases hmem
  | cons first parts ih =>
    obtain ⟨gap, after, rfl, -, hafter, heq⟩ := exists_locateParts_cons h offset
    rw [heq] at hmem
    rcases List.mem_cons.mp hmem with hfirst | hmem
    · cases hfirst
      exact ⟨gap, after, rfl, rfl⟩
    · obtain ⟨before, after', rfl, rfl⟩ := ih hafter hmem
      refine ⟨gap ++ (first ++ before), after', by simp, ?_⟩
      simp only [byteLength_append]
      omega

/-- Each part ends before the next one starts. -/
theorem pairwise_locateParts (h : TiledBy cs parts) (offset : Nat) :
    (locateParts offset cs parts).Pairwise fun a b => a.2 + byteLength a.1 ≤ b.2 := by
  induction parts generalizing cs offset with
  | nil => exact .nil
  | cons part parts ih =>
    obtain ⟨gap, after, rfl, -, hafter, heq⟩ := exists_locateParts_cons h offset
    rw [heq]
    refine List.pairwise_cons.mpr ⟨?_, ih hafter _⟩
    rintro ⟨later, start⟩ hmem
    obtain ⟨between, _, -, rfl⟩ := exists_of_mem_locateParts hafter hmem
    exact Nat.le_add_right _ _

/-- A character with a byte that no part covers is a blank or a comma. -/
theorem isBetweenParts_of_not_covers (h : TiledBy cs parts) {offset byte : Nat}
    {before after : List Char} {c : Char} (hcs : cs = before ++ c :: after)
    (hstart : offset + byteLength before ≤ byte)
    (hstop : byte < offset + byteLength before + c.utf8Size)
    (hfree : ∀ located ∈ locateParts offset cs parts, ¬CoversByte located byte) :
    isBetweenParts c = true := by
  induction parts generalizing cs offset before with
  | nil =>
    cases h with
    | nil hgap => exact List.all_eq_true.mp hgap c (hcs ▸ by simp)
  | cons part parts ih =>
    obtain ⟨gap, rest, hparts, hgap, hrest, heq⟩ := exists_locateParts_cons h offset
    rw [heq, List.forall_mem_cons] at hfree
    rw [hparts] at hcs
    rcases exists_of_append_eq_append_cons hcs with ⟨more, hchar⟩ | ⟨behind, rfl, htail⟩
    · exact List.all_eq_true.mp hgap c (hchar ▸ by simp)
    · rw [byteLength_append] at hstart hstop
      rcases exists_of_append_eq_append_cons htail with ⟨more, hchar⟩ | ⟨beyond, rfl, hafter⟩
      · -- The part covers the byte.
        refine absurd ⟨?_, ?_⟩ hfree.1
        · dsimp only
          omega
        · rw [hchar]
          simp only [byteLength_append, byteLength_cons]
          omega
      · rw [byteLength_append] at hstart hstop
        exact ih hrest hafter (by omega) (by omega) hfree.2

end Located

/-- The offsets that are found for the parts of a parameter list tile the list, and no part is cut
any further. -/
theorem parametersWithOffsets_tile (list : List Char) :
    PlacesTile list (parametersWithOffsets list) ∧
      (parametersWithOffsets list).map Prod.fst = parameterParts list ∧
        ∀ part ∈ parameterParts list, part ≠ [] → parameterParts part = [part] := by
  have htiled := tiledBy_parameterParts list
  refine ⟨⟨?_, pairwise_locateParts htiled 0, ?_⟩, map_locateParts htiled 0, ?_⟩
  · intro ⟨part, start⟩ hmem
    obtain ⟨before, after, hlist, hstart⟩ := exists_of_mem_locateParts htiled hmem
    exact ⟨before, after, hlist, hstart.trans (Nat.zero_add _)⟩
  · intro before c after hlist byte hstart hstop hfree
    exact isBetweenParts_iff.mp
      (isBetweenParts_of_not_covers htiled hlist (by omega) (by omega) hfree)
  · intro part hpart hne
    exact parameterParts_of_mem hpart hne

/-- An empty part is found right behind the one before it, and a comparison leaves an angle bracket
open. -/
theorem parametersWithOffsets_tile_comparison :
    parametersWithOffsets "a: Int, , less: Boolean = 1 < 2, n: Int ,".toList =
        [("a: Int".toList, 0), ([], 6), ("less: Boolean = 1 < 2".toList, 10),
          ("n: Int".toList, 33)] ∧
      PlacesTile "a: Int, , less: Boolean = 1 < 2, n: Int ,".toList
        [("a: Int".toList, 0), ([], 6), ("less: Boolean = 1 < 2".toList, 10),
          ("n: Int".toList, 33)] ∧
      parameterParts "less: Boolean = 1 < 2".toList = ["less: Boolean = 1 < 2".toList] := by
  have hplaces : parametersWithOffsets "a: Int, , less: Boolean = 1 < 2, n: Int ,".toList =
      [("a: Int".toList, 0), ([], 6), ("less: Boolean = 1 < 2".toList, 10),
        ("n: Int".toList, 33)] := by decide +kernel
  obtain ⟨htile, -, hstable⟩ :=
    parametersWithOffsets_tile "a: Int, , less: Boolean = 1 < 2, n: Int ,".toList
  refine ⟨hplaces, ?_, hstable _ (by decide +kernel) (by decide)⟩
  rwa [hplaces] at htile

end ComponentWiring.Source
