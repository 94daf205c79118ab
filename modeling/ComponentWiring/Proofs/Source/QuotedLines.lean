import ComponentWiring.Proofs.Source.BeforeQuotes
import ComponentWiring.Proofs.Source.ImportLines

/-!
Import lines and literals. What is read of a package line or an import line in front of a quote does
not depend on what follows the quote (`StopsAt`), and what stands between two quotes on one line
starts no line. So the imports of a file do not depend on what a literal in it says
(`Imports.ofText_eq_of_literals`).
-/

namespace ComponentWiring.Source

open Text

/-- What is read in front of a quote does not depend on what follows the quote. -/
def StopsAt {α : Type} (quote : Char) (read : List Char → Option (α × List Char)) : Prop :=
  ∀ front, ∃ r : Option (α × List Char), ∀ tail,
    read (front ++ quote :: tail) = r.map fun r => (r.1, r.2 ++ quote :: tail)

/-- This is so if something is taken off the front first. -/
theorem StopsAt.bind {α : Type} {quote : Char} {next : List Char → Option (α × List Char)}
    (hnext : StopsAt quote next) {first : List Char → Option (List Char)}
    (hfirst : ∀ front tail,
      first (front ++ quote :: tail) = (first front).map (· ++ quote :: tail)) :
    StopsAt quote fun cs => (first cs).bind next := by
  intro front
  cases h : first front with
  | none => exact ⟨none, fun tail => by simp only [hfirst, h, Option.map_none, Option.bind_none]⟩
  | some rest =>
    obtain ⟨r, hr⟩ := hnext rest
    exact ⟨r, fun tail => by simp only [hfirst, h, Option.map_some, Option.bind_some, hr]⟩

section Quote

variable {quote : Char} (hquote : isQuote quote = true) {tail : List Char}

include hquote

theorem stopsAt_packageLine? : StopsAt quote packageLine? := by
  refine .bind (.bind (fun front => ?_) fun front _ => afterBlanks?_append_quote hquote front)
    fun front _ => dropText?_append_quote hquote (by decide) front
  simp only [takeWhile_append_quote hquote (p := isDottedChar) (by decide),
    dropWhile_append_quote hquote (p := isDottedChar) (by decide)]
  split_ifs
  · exact ⟨none, fun tail => rfl⟩
  · exact ⟨some (_, _), fun tail => rfl⟩

theorem stopsAt_givenName? : StopsAt quote givenName? := by
  have hblanks (front tail : List Char) : afterBlanks? (front ++ quote :: tail) =
      (afterBlanks? front).map (· ++ quote :: tail) := afterBlanks?_append_quote hquote front
  refine .bind (.bind (.bind (fun front => ?_) hblanks)
    fun front _ => dropText?_append_quote hquote (by decide) front) hblanks
  simp only [takeWhile_append_quote hquote (p := isWordChar) (by decide),
    dropWhile_append_quote hquote (p := isWordChar) (by decide)]
  split_ifs
  · exact ⟨none, fun tail => rfl⟩
  · exact ⟨some (_, _), fun tail => rfl⟩

theorem endsLine_append_quote (front : List Char) :
    endsLine (front ++ quote :: tail) = endsLine (front ++ [quote]) := by
  have hsemicolon : quote ≠ ';' := ne_of_isQuote hquote rfl
  have hsome (front tail : List Char) : (front ++ quote :: tail).isEmpty = false := by simp
  unfold endsLine
  simp only [takeWhile_append_quote hquote (p := isBlank) (by decide),
    trimStart_append_quote hquote]
  cases trimStart front with
  | nil => simp [hsemicolon, hsome]
  | cons c rest =>
    by_cases hc : c = ';'
    · subst hc
      simp [takeWhile_append_quote hquote (p := isBlank) (by decide),
        trimStart_append_quote hquote, hsome]
    · simp [hc, hsome]

theorem stopsAt_importTail? : StopsAt quote importTail? := by
  intro front
  obtain ⟨plain, hplain⟩ : ∃ r : Option (Option String × List Char), ∀ tail,
      (if endsLine (front ++ quote :: tail) then some (none, front ++ quote :: tail) else none) =
        r.map fun r => (r.1, r.2 ++ quote :: tail) := by
    refine ⟨if endsLine (front ++ [quote]) then some (none, front) else none, fun tail => ?_⟩
    rw [endsLine_append_quote hquote]
    split_ifs <;> rfl
  obtain ⟨given, hgiven⟩ := stopsAt_givenName? hquote front
  cases given with
  | none => exact ⟨plain, fun tail => by simp only [importTail?, hgiven, hplain, Option.map_none]⟩
  | some r =>
    refine ⟨if endsLine (r.2 ++ [quote]) then some (some (String.ofList r.1), r.2) else plain,
      fun tail => ?_⟩
    simp only [importTail?, hgiven, Option.map_some, hplain]
    rw [endsLine_append_quote hquote]
    split_ifs <;> rfl

theorem stopsAt_importLine? : StopsAt quote importLine? := by
  refine .bind (.bind (fun front => ?_) fun front _ => afterBlanks?_append_quote hquote front)
    fun front _ => dropText?_append_quote hquote (by decide) front
  have hstar : quote ≠ '*' := ne_of_isQuote hquote rfl
  simp only [takeWhile_append_quote hquote (p := isDottedChar) (by decide),
    dropWhile_append_quote hquote (p := isDottedChar) (by decide)]
  generalize front.takeWhile isDottedChar = name
  generalize front.dropWhile isDottedChar = rest
  obtain ⟨single, hsingle⟩ : ∃ r : Option (ImportLine × List Char), ∀ tail,
      (if name.isEmpty then none
        else (importTail? (rest ++ quote :: tail)).bind fun r =>
          some (.single (String.ofList name) r.1, r.2)) =
        r.map fun r => (r.1, r.2 ++ quote :: tail) := by
    obtain ⟨r, hr⟩ := stopsAt_importTail? hquote rest
    refine ⟨if name.isEmpty then none
      else r.map fun r => (.single (String.ofList name) r.1, r.2), fun tail => ?_⟩
    rw [hr]
    split_ifs
    · rfl
    · cases r <;> rfl
  by_cases hbehind :
      ∃ behind package, rest = '*' :: behind ∧ splitLast '.' name = some (package, [])
  · obtain ⟨behind, package, rfl, hlast⟩ := hbehind
    obtain ⟨r, hr⟩ := stopsAt_importTail? hquote behind
    refine ⟨if package.isEmpty then none
      else r.map fun r => (.star (String.ofList package), r.2), fun tail => ?_⟩
    simp only [List.cons_append, hlast, hr]
    split_ifs
    · rfl
    · cases r <;> rfl
  · refine ⟨single, fun tail => ?_⟩
    rw [← hsingle]
    split
    · next behind package heq hlast =>
      cases rest with
      | nil => exact absurd (List.cons.inj heq).1 hstar
      | cons c rest =>
        obtain ⟨rfl, -⟩ := List.cons.inj heq
        exact absurd ⟨rest, package, rfl, hlast⟩ hbehind
    · rfl

/-! ## Literals on a line -/

/-- What stands on one line between quotes starts no line, and so nothing that is read there. -/
theorem map_value_occurrences_atLineStart {α : Type} {read : List Char → Option (α × List Char)}
    (hread : StopsAt quote read) (front : List Char) {line : List Char} (hline : '\n' ∉ line) :
    (occurrences (atLineStart read) (front ++ quote :: (line ++ quote :: tail))).map (·.value) =
      (occurrences (atLineStart read) (front ++ [quote])).map (·.value) ++
        (occurrencesFrom (atLineStart read) 0
          (byteLength (front ++ quote :: (line ++ [quote]))) (some quote) tail).map (·.value) := by
  have hbreak : quote ≠ '\n' := ne_of_isQuote hquote rfl
  have hfront : ∀ previous part, part <:+ front ++ [quote] → part ≠ [] →
      atLineStart read previous (part ++ (line ++ quote :: tail)) =
        (atLineStart read previous part).map fun r => (r.1, r.2 ++ (line ++ quote :: tail)) := by
    intro previous part hpart hne
    obtain ⟨part, rfl, -⟩ := (List.suffix_concat_iff.mp hpart).resolve_left hne
    by_cases hprevious : AtLineStart previous
    · obtain ⟨r, hr⟩ := hread (trimStart part)
      rw [atLineStart_eq hprevious, atLineStart_eq hprevious, List.append_assoc,
        List.singleton_append, trimStart_append_quote hquote, trimStart_append_quote hquote, hr, hr,
        Option.map_map]
      simp [Function.comp_def]
    · obtain ⟨c, rfl, hc⟩ : ∃ c, previous = some c ∧ c ≠ '\n' := by
        simpa [AtLineStart] using hprevious
      rw [atLineStart_eq_none hc, atLineStart_eq_none hc]
      rfl
  have hliteral : ∀ before c after, line ++ [quote] = before ++ c :: after →
      atLineStart read (before.getLast?.or (some quote)) (c :: (after ++ tail)) = none := by
    intro before c after heq
    rcases List.eq_nil_or_concat before with rfl | ⟨before, d, rfl⟩
    · exact atLineStart_eq_none hbreak _
    · have hd : d ∈ line := subset_of_concat_eq heq (by simp)
      rw [List.concat_eq_append, List.getLast?_concat]
      exact atLineStart_eq_none (fun heq => hline (heq ▸ hd)) _
  have htext : front ++ quote :: (line ++ quote :: tail) =
      front ++ [quote] ++ (line ++ quote :: tail) := by simp
  have hbehind : line ++ quote :: tail = line ++ [quote] ++ tail := by simp
  rw [occurrences, htext, occurrencesFrom_append_of_map hfront, List.map_append, List.map_map]
  congr 1
  rw [List.getLast?_concat, hbehind, Option.some_or, occurrencesFrom_of_none hliteral,
    List.getLast?_concat, Option.some_or]
  simp [Nat.add_assoc]

/-- The imports of a file are the same, whatever a literal in it says on its line. -/
theorem Imports.ofText_eq_of_literals (front tail : List Char) {line line' : List Char}
    (hline : '\n' ∉ line) (hline' : '\n' ∉ line') (hbytes : byteLength line = byteLength line') :
    Imports.ofText (front ++ quote :: (line ++ quote :: tail)) =
      Imports.ofText (front ++ quote :: (line' ++ quote :: tail)) := by
  have hvalues {α : Type} {read : List Char → Option (α × List Char)} (hread : StopsAt quote read) :
      (occurrences (atLineStart read) (front ++ quote :: (line ++ quote :: tail))).map (·.value) =
        (occurrences (atLineStart read)
          (front ++ quote :: (line' ++ quote :: tail))).map (·.value) := by
    rw [map_value_occurrences_atLineStart hquote hread front hline,
      map_value_occurrences_atLineStart hquote hread front hline']
    simp only [byteLength_append, byteLength_cons, hbytes]
  have hpackage (cs : List Char) : declaredPackage cs =
      ((((occurrences (atLineStart packageLine?) cs).map (·.value)).head?).map
        String.ofList).getD "" := by
    unfold declaredPackage
    cases occurrences (atLineStart packageLine?) cs <;> rfl
  unfold Imports.ofText importLines
  rw [hpackage, hpackage, hvalues (stopsAt_packageLine? hquote),
    hvalues (stopsAt_importLine? hquote)]

end Quote

end ComponentWiring.Source
