import ComponentWiring.Proofs.Text.Cutting
import ComponentWiring.Proofs.Text.Occurrences

/-!
Readers that stop in front of a text. Of a text with something behind it, such a reader reads what
it reads where the text ends, as long as it leaves what is behind (`StopsBefore`). The same then
holds of the reader in a row (`readAll_append_of_suffix`), and what it finds in the whole is what it
finds in front, and what it finds behind (`occurrencesFrom_append`).
-/

namespace ComponentWiring.Text

variable {α : Type}

/-- Reading stops in front of `rest` as if the text ended there. -/
def StopsBefore (rest : List Char) (read : List Char → Option (α × List Char)) : Prop :=
  ∀ part value left,
    read (part ++ rest) = some (value, left ++ rest) ↔ read part = some (value, left)

/-- Where reading stops in front of `rest`, nothing is read without it if nothing is read with it. -/
theorem eq_none_of_stops {whole part : Option (α × List Char)} {rest : List Char}
    (h : ∀ value left, whole = some (value, left ++ rest) ↔ part = some (value, left))
    (hnone : whole = none) : part = none := by
  cases part with
  | none => rfl
  | some r =>
    have hagain := (h r.1 r.2).mpr rfl
    rw [hnone] at hagain
    cases hagain

/-- Where `rest` only lengthens what is left, something is read if it is read without. -/
theorem map_append_eq_some_iff {r : Option (α × List Char)} {value : α} {left rest : List Char} :
    (r.map fun r => (r.1, r.2 ++ rest)) = some (value, left ++ rest) ↔ r = some (value, left) := by
  cases r with
  | none => simp
  | some r => simp [Prod.ext_iff]

/-! ## In a row -/

section Repeat

variable {step : List Char → Option (α × List Char)}
  (hshort : ∀ cs r, step cs = some r → r.2.length < cs.length)

include hshort

/-- Behind what is read in a row nothing more can be read. -/
theorem step_readAll_eq_none (cs : List Char) : step (readAll step cs).2 = none := by
  induction hlength : cs.length using Nat.strong_induction_on generalizing cs with
  | _ n ih =>
    cases h : step cs with
    | none => rwa [readAll_eq_of_none h]
    | some r =>
      rw [readAll_of_some hshort h]
      exact ih _ (hlength ▸ hshort cs r h) _ rfl

variable {rest : List Char} (hstop : StopsBefore rest step)

include hstop

/-- Reading goes through the text in front first. -/
theorem readAll_append_readAll (part : List Char) :
    readAll step (part ++ rest) =
      ((readAll step part).1 ++ (readAll step ((readAll step part).2 ++ rest)).1,
        (readAll step ((readAll step part).2 ++ rest)).2) := by
  induction hlength : part.length using Nat.strong_induction_on generalizing part with
  | _ n ih =>
    cases h : step part with
    | none => rw [readAll_eq_of_none h, List.nil_append]
    | some r =>
      have hrest := ih _ (hlength ▸ hshort part r h) r.2 rfl
      rw [readAll_of_some hshort h, readAll_of_some hshort ((hstop _ _ _).mpr h), hrest]
      rfl

/-- It ends in front where nothing can be read at the end of that. -/
theorem readAll_append_of_none {part : List Char}
    (h : step ((readAll step part).2 ++ rest) = none) :
    readAll step (part ++ rest) = ((readAll step part).1, (readAll step part).2 ++ rest) := by
  rw [readAll_append_readAll hshort hstop, readAll_eq_of_none h, List.append_nil]

/-- It ended in front if what is behind is still left. -/
theorem readAll_append_of_suffix (hsuffix : ∀ cs r, step cs = some r → r.2 <:+ cs)
    {part : List Char} (h : rest <:+ (readAll step (part ++ rest)).2) :
    readAll step (part ++ rest) = ((readAll step part).1, (readAll step part).2 ++ rest) := by
  refine readAll_append_of_none hshort hstop ?_
  cases hread : step ((readAll step part).2 ++ rest) with
  | none => rfl
  | some r =>
    rw [readAll_append_readAll hshort hstop, readAll_of_some hshort hread] at h
    obtain ⟨left, hleft⟩ := h.trans (readAll_suffix hsuffix r.2)
    have hagain := (hstop _ r.1 left).mp (by rw [hread, hleft])
    rw [step_readAll_eq_none hshort] at hagain
    cases hagain

end Repeat

/-! ## Everywhere -/

section Occurrences

variable {reader : ReaderAt α} {front rest : List Char}

instance decidableComesTo (reader : ReaderAt α) :
    (skip : Nat) → (previous : Option Char) → (before after : List Char) →
      Decidable (ComesTo reader skip previous before after)
  | skip, previous, [], after =>
    decidable_of_iff (skip = 0) (by cases skip <;> simp [ComesTo])
  | skip + 1, _, c :: before, after => decidableComesTo reader skip (some c) before after
  | 0, previous, c :: before, after =>
    decidableComesTo reader (takenBehind reader previous (c :: (before ++ after))) (some c) before
      after

theorem le_length_of_comesTo {skip : Nat} {previous : Option Char}
    (h : ComesTo reader skip previous front rest) : skip ≤ front.length := by
  induction front generalizing skip previous with
  | nil => exact Nat.le_of_eq h
  | cons c front ih =>
    cases skip with
    | zero => exact Nat.zero_le _
    | succ skip => exact Nat.succ_le_succ (ih h)

/-- An occurrence with more text behind it. -/
def Occurrence.extend (found : Occurrence α) (rest : List Char) : Occurrence α :=
  { found with rest := found.rest ++ rest }

/-- Where reading comes to `rest` and stops in front of it, it reads nothing, or what it reads
without `rest`. -/
theorem read_append_cases {c : Char} {previous : Option Char}
    (hstop : ∀ value left, reader previous (c :: front ++ rest) = some (value, left ++ rest) ↔
      reader previous (c :: front) = some (value, left))
    (hends : ∀ value left, reader previous (c :: front ++ rest) = some (value, left) →
      rest.length ≤ left.length → rest <:+ left)
    (hcomes : ComesTo reader 0 previous (c :: front) rest) :
    (reader previous (c :: front ++ rest) = none ∧ reader previous (c :: front) = none) ∨
      ∃ value left, reader previous (c :: front ++ rest) = some (value, left ++ rest) ∧
        reader previous (c :: front) = some (value, left) := by
  cases hread : reader previous (c :: front ++ rest) with
  | none => exact .inl ⟨rfl, eq_none_of_stops hstop hread⟩
  | some r =>
    obtain ⟨value, behind⟩ := r
    rw [ComesTo, takenBehind, ← List.cons_append, hread] at hcomes
    have hshort := le_length_of_comesTo hcomes
    obtain ⟨left, rfl⟩ : rest <:+ behind := by
      refine hends value behind hread ?_
      simp only [List.length_append, List.length_cons] at hshort
      omega
    exact .inr ⟨value, left, rfl, (hstop value left).mp hread⟩

/-- If reading comes to the end of a text and stops there, it finds in the whole what it finds in
front, and then what it finds behind. -/
theorem occurrencesFrom_append
    (hstop : ∀ previous part, part <:+ front → part ≠ [] → ∀ value left,
      reader previous (part ++ rest) = some (value, left ++ rest) ↔
        reader previous part = some (value, left))
    (hends : ∀ previous part, part <:+ front → part ≠ [] → ∀ value left,
      reader previous (part ++ rest) = some (value, left) → rest.length ≤ left.length →
        rest <:+ left)
    {skip : Nat} {previous : Option Char} (hcomes : ComesTo reader skip previous front rest)
    (offset : Nat) :
    occurrencesFrom reader skip offset previous (front ++ rest) =
      (occurrencesFrom reader skip offset previous front).map (·.extend rest) ++
        occurrencesFrom reader 0 (offset + byteLength front) (front.getLast?.or previous) rest := by
  induction front generalizing skip offset previous with
  | nil =>
    obtain rfl : skip = 0 := hcomes
    simp [occurrencesFrom]
  | cons c front ih =>
    have hlater {skip : Nat} (hcomes : ComesTo reader skip (some c) front rest) :=
      ih (fun previous part hpart => hstop previous part (hpart.trans (List.suffix_cons c front)))
        (fun previous part hpart => hends previous part (hpart.trans (List.suffix_cons c front)))
        hcomes (offset + c.utf8Size)
    have hhere := hstop previous (c :: front) (List.suffix_refl _) (List.cons_ne_nil c front)
    rw [getLast?_cons_or, byteLength_cons, ← Nat.add_assoc, List.cons_append]
    cases skip with
    | succ skip => exact hlater hcomes
    | zero =>
      have hcases := read_append_cases hhere
        (hends previous (c :: front) (List.suffix_refl _) (List.cons_ne_nil c front)) hcomes
      simp only [List.cons_append] at hcases
      rw [ComesTo, takenBehind] at hcomes
      rw [occurrencesFrom, occurrencesFrom]
      rcases hcases with ⟨hnone, hnone'⟩ | ⟨value, left, hsome, hsome'⟩
      · rw [hnone] at hcomes
        rw [hnone, hnone']
        exact hlater hcomes
      · have hcut : (c :: (front ++ rest)).length - (left ++ rest).length =
            (c :: front).length - left.length := by
          simp only [List.length_cons, List.length_append]
          omega
        have htake : (c :: (front ++ rest)).take ((c :: front).length - left.length) =
            (c :: front).take ((c :: front).length - left.length) :=
          List.take_append_of_le_length (Nat.sub_le _ _)
        rw [hsome] at hcomes
        dsimp only at hcomes
        rw [hcut] at hcomes
        rw [hsome, hsome']
        simp only [hcut, htake, hlater hcomes, List.map_cons, List.cons_append]
        rfl

/-- Where the text behind only lengthens what is left, reading always stops in front of it. -/
theorem occurrencesFrom_append_of_map
    (h : ∀ previous part, part <:+ front → part ≠ [] →
      reader previous (part ++ rest) =
        (reader previous part).map fun r => (r.1, r.2 ++ rest))
    (offset : Nat) (previous : Option Char) :
    occurrencesFrom reader 0 offset previous (front ++ rest) =
      (occurrencesFrom reader 0 offset previous front).map (·.extend rest) ++
        occurrencesFrom reader 0 (offset + byteLength front) (front.getLast?.or previous) rest := by
  have hleft : ∀ previous part, part <:+ front → part ≠ [] → ∀ value left,
      reader previous (part ++ rest) = some (value, left) → rest <:+ left := by
    intro previous part hpart hne value left hread
    rw [h previous part hpart hne] at hread
    obtain ⟨r, -, heq⟩ := Option.map_eq_some_iff.mp hread
    exact ⟨r.2, (Prod.mk.inj heq).2⟩
  refine occurrencesFrom_append (fun previous part hpart hne value left => ?_)
    (fun previous part hpart hne value left hread _ => hleft _ _ hpart hne _ _ hread) ?_ offset
  · rw [h previous part hpart hne]
    exact map_append_eq_some_iff
  · refine comesTo_of_keeps (Nat.zero_le _) fun before c more heq value left hread => ?_
    exact (hleft _ (c :: more) ⟨before, heq.symm⟩ (List.cons_ne_nil c more) _ _ hread).length_le

end Occurrences

end ComponentWiring.Text
