import Mathlib.Data.List.Basic
import ComponentWiring.Proofs.Source.Balance
import ComponentWiring.Proofs.Text.Cutting

/-!
Lists that are put together from parts. A part that keeps together and closes what it opens is cut
off at the comma behind it, and the rest of the list is cut as if it stood alone. In a parameter
list the same holds for each part that leaves no angle bracket open; the parts that do are cut
again.
-/

namespace ComponentWiring.Source

open Text

variable {track : Bool} {n : Nesting} {as bs cs : List Char}

/-! ## Pieces between commas -/

theorem cutFrom_ne_nil : cutFrom track n cs ≠ [] := by
  cases cs with
  | nil => simp [cutFrom]
  | cons c cs =>
    rw [cutFrom]
    split_ifs
    · simp
    · split <;> simp

theorem cutFrom_cons_of_keeps {c : Char} (h : n.separates c = false) (cs : List Char) :
    cutFrom track n (c :: cs) = (cutFrom track (n.step track c) cs).modifyHead (c :: ·) := by
  rw [cutFrom, if_neg (by simp [h])]
  cases hpieces : cutFrom track (n.step track c) cs with
  | nil => exact absurd hpieces cutFrom_ne_nil
  | cons piece others => rfl

/-- A text that keeps together belongs to the first piece of what follows it. -/
theorem cutFrom_append (h : n.Keeps track as) (bs : List Char) :
    cutFrom track n (as ++ bs) = (cutFrom track (n.run track as) bs).modifyHead (as ++ ·) := by
  induction as generalizing n with
  | nil =>
    rw [List.nil_append, Nesting.run_nil]
    cases cutFrom track n bs <;> rfl
  | cons a as ih =>
    obtain ⟨ha, has⟩ := h
    rw [List.cons_append, cutFrom_cons_of_keeps ha, ih has, List.modifyHead_modifyHead]
    rfl

theorem cutFrom_of_keeps (h : n.Keeps track as) : cutFrom track n as = [as] := by
  simpa [cutFrom] using cutFrom_append h []

theorem cutFrom_append_comma {dash : Bool} (h : n.Keeps track as)
    (hrun : n.run track as = { afterDash := dash }) (bs : List Char) :
    cutFrom track n (as ++ ',' :: bs) = as :: cutFrom track {} bs := by
  have hsep : ({ afterDash := dash } : Nesting).separates ',' = true := rfl
  have hstep : Nesting.step track { afterDash := dash } ',' = {} := by
    simp [Nesting.step, LiteralState.step, isQuote]
  rw [cutFrom_append h, hrun, cutFrom, hstep, if_pos hsep, List.modifyHead_cons, List.append_nil]

/-- More text goes on with the last piece. -/
theorem exists_cutFrom_append (track : Bool) (n : Nesting) (as bs : List Char) : ∃ pieces last,
    cutFrom track n as = pieces ++ [last] ∧ cutFrom track n (as ++ bs) =
      pieces ++ (cutFrom track (n.run track as) bs).modifyHead (last ++ ·) := by
  induction as generalizing n with
  | nil =>
    refine ⟨[], [], rfl, ?_⟩
    cases hpieces : cutFrom track n bs <;> simp [hpieces]
  | cons a as ih =>
    obtain ⟨pieces, last, has, happend⟩ := ih (n.step track a)
    cases hsep : n.separates a with
    | true =>
      refine ⟨[] :: pieces, last, ?_, ?_⟩
      · rw [cutFrom, if_pos hsep, has]
        rfl
      · rw [List.cons_append, cutFrom, if_pos hsep, happend]
        rfl
    | false =>
      rw [List.cons_append, cutFrom_cons_of_keeps hsep, cutFrom_cons_of_keeps hsep, has, happend]
      cases pieces with
      | nil => exact ⟨[], a :: last, rfl, by simp [List.modifyHead_modifyHead, Function.comp_def]⟩
      | cons piece pieces => exact ⟨(a :: piece) :: pieces, last, rfl, rfl⟩

/-- With the commas put back between them, the pieces are the text again. -/
theorem intercalate_cutFrom (track : Bool) (n : Nesting) (cs : List Char) :
    [','].intercalate (cutFrom track n cs) = cs := by
  induction cs generalizing n with
  | nil => rfl
  | cons c cs ih =>
    obtain ⟨piece, others, hpieces⟩ := List.exists_cons_of_ne_nil
      (show cutFrom track (n.step track c) cs ≠ [] from cutFrom_ne_nil)
    have hrest := ih (n.step track c)
    cases hsep : n.separates c with
    | true =>
      have hcomma : c = ',' := (Nesting.separates_iff.mp hsep).1
      rw [cutFrom, if_pos hsep, hpieces, List.intercalate_cons_cons, ← hpieces, hrest, hcomma]
      rfl
    | false =>
      rw [cutFrom_cons_of_keeps hsep, hpieces, List.modifyHead_cons]
      rw [hpieces] at hrest
      cases others with
      | nil =>
        rw [List.intercalate_singleton] at hrest ⊢
        rw [hrest]
      | cons next others =>
        rw [List.intercalate_cons_cons] at hrest ⊢
        rw [← hrest]
        rfl

/-! ## Parts of a list -/

theorem dropEmptyLast_cons {piece : List Char} {pieces : List (List Char)} (h : pieces ≠ []) :
    dropEmptyLast (piece :: pieces) = piece :: dropEmptyLast pieces := by
  cases pieces with
  | nil => exact absurd rfl h
  | cons p ps => rfl

@[simp] theorem topLevelParts_nil : topLevelParts [] = [] := rfl

theorem topLevelParts_of_keeps {part : List Char} (h : ({} : Nesting).Keeps true as)
    (hpart : trim as = part) (hne : part ≠ []) : topLevelParts as = [part] := by
  rw [topLevelParts, cutFrom_of_keeps h]
  simp [dropEmptyLast, hpart, hne]

theorem topLevelParts_append_comma {dash : Bool} (h : ({} : Nesting).Keeps true as)
    (hrun : Nesting.run true {} as = { afterDash := dash }) (bs : List Char) :
    topLevelParts (as ++ ',' :: bs) = trim as :: topLevelParts bs := by
  rw [topLevelParts, cutFrom_append_comma h hrun, List.map_cons,
    dropEmptyLast_cons (by simpa using cutFrom_ne_nil), topLevelParts]

theorem topLevelParts_cons_of_blank {c : Char} (hc : isBlank c = true) (cs : List Char) :
    topLevelParts (c :: cs) = topLevelParts cs := by
  have hkeeps : ({} : Nesting).separates c = false := by
    rw [Bool.eq_false_iff, ne_eq, Nesting.separates_iff]
    exact fun h => ne_of_isBlank hc rfl h.1
  rw [topLevelParts, topLevelParts, cutFrom_cons_of_keeps hkeeps,
    Nesting.step_of_blank_of_code hc rfl]
  cases cutFrom true {} cs with
  | nil => rfl
  | cons piece others => simp [trim_cons_of_blank hc]

/-- Blanks in front of a list do not matter. -/
theorem topLevelParts_append_of_blank (h : isAllBlank as = true) (bs : List Char) :
    topLevelParts (as ++ bs) = topLevelParts bs := by
  induction as with
  | nil => rfl
  | cons a as ih =>
    rw [isAllBlank_cons] at h
    rw [List.cons_append, topLevelParts_cons_of_blank h.1, ih h.2]

theorem keeps_of_blank (h : isAllBlank as = true) (n : Nesting) : n.Keeps track as := by
  induction as generalizing n with
  | nil => exact trivial
  | cons a as ih =>
    rw [isAllBlank_cons] at h
    refine ⟨?_, ih h.2 _⟩
    rw [Bool.eq_false_iff, ne_eq, Nesting.separates_iff]
    exact fun hsep => ne_of_isBlank h.1 rfl hsep.1

/-- Blanks around a list do not matter. -/
theorem topLevelParts_trim (cs : List Char) : topLevelParts (trim cs) = topLevelParts cs := by
  obtain ⟨before, after, hbefore, hafter, hcs⟩ := exists_blanks_of_trim cs
  have hend : topLevelParts (trim cs ++ after) = topLevelParts (trim cs) := by
    obtain ⟨pieces, last, hpieces, happend⟩ := exists_cutFrom_append true {} (trim cs) after
    rw [topLevelParts, topLevelParts, happend, hpieces, cutFrom_of_keeps (keeps_of_blank hafter _)]
    simp [trim_append_of_blank hafter]
  conv_rhs => rw [hcs, List.append_assoc, topLevelParts_append_of_blank hbefore, hend]

theorem dropEmptyLast_sublist (pieces : List (List Char)) :
    (dropEmptyLast pieces).Sublist pieces := by
  fun_induction dropEmptyLast pieces with
  | case1 => exact .slnil
  | case2 piece hempty => simp
  | case3 piece hempty => simp
  | case4 piece others hothers ih => exact ih.cons_cons piece

theorem dropEmptyLast_eq_self {pieces : List (List Char)} (h : ∀ piece ∈ pieces, piece ≠ []) :
    dropEmptyLast pieces = pieces := by
  fun_induction dropEmptyLast pieces <;> simp_all

/-- A list of balanced parts is cut into its parts. -/
theorem topLevelParts_intercalate {parts : List (List Char)}
    (hbalanced : ∀ part ∈ parts, IsBalanced true part) (htrimmed : ∀ part ∈ parts, Trimmed part) :
    topLevelParts (", ".toList.intercalate parts) = parts := by
  induction parts with
  | nil => rfl
  | cons part parts ih =>
    obtain ⟨hpart, hparts⟩ := List.forall_mem_cons.mp hbalanced
    obtain ⟨ht, hts⟩ := List.forall_mem_cons.mp htrimmed
    obtain ⟨hkeeps, dash, hrun⟩ := hpart.run_true 0
    cases parts with
    | nil =>
      rw [List.intercalate_singleton, topLevelParts_of_keeps hkeeps ht.trim_eq ht.ne_nil]
    | cons next parts =>
      rw [List.intercalate_cons_cons, List.append_assoc]
      refine (topLevelParts_append_comma hkeeps hrun _).trans ?_
      rw [ht.trim_eq]
      exact congrArg (part :: ·) ((topLevelParts_cons_of_blank rfl _).trans (ih hparts hts))

/-! ## Parts of a parameter list -/

/-- A parameter as it is written in a list. -/
def parameterLine (name type : List Char) : (default? : Option (List Char)) → List Char
  | none => name ++ ": ".toList ++ type
  | some d => name ++ ": ".toList ++ type ++ " = ".toList ++ d

/-- A part of a list, cut again if its angle brackets stay open. -/
def refinedParts (fragment : List Char) : List (List Char) :=
  if openAngles fragment = 0 then [fragment]
  else
    match recut? fragment with
    | some (before, after) => trim before :: parameterParts after
    | none => [fragment]

theorem parameterParts_eq (cs : List Char) :
    parameterParts cs = (topLevelParts cs).flatMap refinedParts := by
  rw [parameterParts]
  conv_rhs => rw [← List.attach_map_subtype_val (topLevelParts cs), List.flatMap_map]
  congr 1
  funext ⟨fragment, _⟩
  change (if openAngles fragment = 0 then [fragment] else _) = refinedParts fragment
  rw [refinedParts]
  congr 1
  split <;> rename_i hcut <;> rw [hcut]

@[simp] theorem parameterParts_nil : parameterParts [] = [] := by
  simp [parameterParts_eq]

theorem refinedParts_of_closed (h : openAngles as = 0) : refinedParts as = [as] :=
  if_pos h

theorem parameterParts_append_of_blank (h : isAllBlank as = true) (bs : List Char) :
    parameterParts (as ++ bs) = parameterParts bs := by
  rw [parameterParts_eq, topLevelParts_append_of_blank h, parameterParts_eq]

/-- A comma outside brackets stands in the first of two texts or in the second. -/
theorem commaSplits_append (n : Nesting) (as bs : List Char) :
    commaSplits n (as ++ bs) =
      (commaSplits n as).map (fun r => (r.1, r.2 ++ bs)) ++
        (commaSplits (n.run false as) bs).map (fun r => (as ++ r.1, r.2)) := by
  induction as generalizing n with
  | nil => simp [commaSplits]
  | cons a as ih =>
    simp only [List.cons_append, commaSplits, ih, Nesting.run_cons]
    split_ifs <;> simp [Function.comp_def]

theorem eq_append_of_mem_commaSplits {n : Nesting} {before after : List Char}
    (h : (before, after) ∈ commaSplits n cs) : cs = before ++ ',' :: after := by
  induction cs generalizing n before with
  | nil => cases h
  | cons c rest ih =>
    rw [commaSplits] at h
    have hlater (h : (before, after) ∈ (commaSplits (n.step false c) rest).map
        fun split => (c :: split.1, split.2)) : c :: rest = before ++ ',' :: after := by
      obtain ⟨⟨b, a⟩, hmem, heq⟩ := List.mem_map.mp h
      cases heq
      rw [ih hmem, List.cons_append]
    split at h
    · next hsep =>
      obtain ⟨rfl, -⟩ := Nesting.separates_iff.mp hsep
      rcases List.mem_cons.mp h with heq | h
      · cases heq
        rfl
      · exact hlater h
    · exact hlater h

theorem recut?_eq (fragment : List Char) :
    recut? fragment = (commaSplits {} fragment).find? fun r => startsParameter r.2 := rfl

theorem eq_append_of_recut? {fragment before after : List Char}
    (h : recut? fragment = some (before, after)) : fragment = before ++ ',' :: after :=
  eq_append_of_mem_commaSplits (List.mem_of_find?_eq_some h)

/-- A text with a comma behind which a parameter starts is cut at the first such comma, whatever
follows. -/
theorem exists_recut?_append {before after : List Char} (h : (before, after) ∈ commaSplits {} as)
    (hstart : startsParameter (after ++ bs) = true) :
    ∃ before' after', recut? (as ++ bs) = some (before', after') ∧ before'.length < as.length := by
  have hsome : (((commaSplits {} as).map fun r => (r.1, r.2 ++ bs)).find?
      fun r => startsParameter r.2).isSome = true := by
    rw [List.find?_isSome]
    exact ⟨_, List.mem_map_of_mem h, hstart⟩
  obtain ⟨found, hfound⟩ := Option.isSome_iff_exists.mp hsome
  obtain ⟨⟨b, a⟩, hb, rfl⟩ := List.mem_map.mp (List.mem_of_find?_eq_some hfound)
  refine ⟨b, a ++ bs, ?_, ?_⟩
  · rw [recut?_eq, commaSplits_append, List.find?_append, hfound]
    rfl
  · have hlength := length_lt_of_mem_commaSplits hb
    omega

end ComponentWiring.Source
