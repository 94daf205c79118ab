import Mathlib.Data.List.Basic
import ComponentWiring.Text.Segments

/-!
The pieces of a text between the occurrences of a separator, such as its lines. A text that is put
together at a separator has the pieces of both parts (`segments_append_sep`), and what stands in
front without a separator is the start of the first piece (`segments_append_of_not_mem`). The pieces
determine the text (`segments_injective`).
-/

namespace ComponentWiring.Text

variable {sep : Char}

theorem segments_ne_nil (cs : List Char) : segments sep cs ≠ [] := by
  cases cs with
  | nil => simp [segments]
  | cons c rest =>
    rw [segments]
    split
    · simp
    · split <;> simp

theorem segments_append_of_not_mem {as : List Char} (has : sep ∉ as) (bs : List Char) :
    segments sep (as ++ bs) =
      (as ++ (segments sep bs).head (segments_ne_nil bs)) :: (segments sep bs).tail := by
  induction as with
  | nil => simp
  | cons a as ih =>
    rw [List.mem_cons, not_or] at has
    rw [List.cons_append, segments, if_neg (Ne.symm has.1), ih has.2]
    rfl

theorem segments_of_not_mem {cs : List Char} (h : sep ∉ cs) : segments sep cs = [cs] := by
  have happend := segments_append_of_not_mem h []
  simpa [segments] using happend

theorem segments_append_sep (as bs : List Char) :
    segments sep (as ++ sep :: bs) = segments sep as ++ segments sep bs := by
  induction as with
  | nil => simp [segments]
  | cons a as ih =>
    rw [List.cons_append, segments, segments, ih]
    by_cases ha : a = sep
    · simp [ha]
    · rw [if_neg ha, if_neg ha]
      cases hpieces : segments sep as with
      | nil => exact absurd hpieces (segments_ne_nil as)
      | cons piece pieces => rfl

/-- What stands at the end without a separator belongs to the last piece. -/
theorem segments_append_of_not_mem_right (as : List Char) {bs : List Char} (hbs : sep ∉ bs) :
    ∃ pieces piece, segments sep as = pieces ++ [piece] ∧
      segments sep (as ++ bs) = pieces ++ [piece ++ bs] := by
  induction as with
  | nil => exact ⟨[], [], rfl, segments_of_not_mem hbs⟩
  | cons a as ih =>
    obtain ⟨pieces, piece, has, happend⟩ := ih
    rw [List.cons_append, segments, segments, has, happend]
    by_cases ha : a = sep
    · exact ⟨[] :: pieces, piece, by simp [ha], by simp [ha]⟩
    · rw [if_neg ha, if_neg ha]
      cases pieces with
      | nil => exact ⟨[], a :: piece, rfl, rfl⟩
      | cons first pieces => exact ⟨(a :: first) :: pieces, piece, rfl, rfl⟩

/-- What stands at the end without a separator is the end of the last piece. -/
theorem exists_getLast?_segments (as : List Char) {bs : List Char} (hbs : sep ∉ bs) :
    ∃ piece, (segments sep (as ++ bs)).getLast? = some piece ∧ bs <:+ piece := by
  obtain ⟨pieces, piece, -, happend⟩ := segments_append_of_not_mem_right as hbs
  exact ⟨piece ++ bs, by simp [happend], List.suffix_append piece bs⟩

theorem not_mem_of_mem_segments {cs piece : List Char} (h : piece ∈ segments sep cs) :
    sep ∉ piece := by
  induction cs generalizing piece with
  | nil =>
    rw [segments, List.mem_singleton] at h
    simp [h]
  | cons c rest ih =>
    rw [segments] at h
    split at h
    · rcases List.mem_cons.mp h with rfl | h
      · simp
      · exact ih h
    · next hc =>
      split at h
      · next hnil => exact absurd hnil (segments_ne_nil rest)
      · next first others hpieces =>
        rcases List.mem_cons.mp h with rfl | h
        · rw [List.mem_cons, not_or]
          exact ⟨Ne.symm hc, ih (hpieces ▸ List.mem_cons_self)⟩
        · exact ih (hpieces ▸ List.mem_cons_of_mem _ h)

theorem intercalate_segments (cs : List Char) : [sep].intercalate (segments sep cs) = cs := by
  induction cs with
  | nil => rfl
  | cons c rest ih =>
    have hne : segments sep rest ≠ [] := segments_ne_nil rest
    obtain ⟨first, others, hpieces⟩ := List.exists_cons_of_ne_nil hne
    rw [segments]
    split
    · next hc => rw [hpieces] at ih ⊢; rw [List.intercalate_cons_cons, ih, hc]; rfl
    · rw [hpieces] at ih ⊢
      rw [← ih]
      cases others <;> simp [List.intercalate_cons_cons]

/-- Pieces that are put together at a separator are read back, if it is in none of them. -/
theorem segments_intercalate {sep : Char} {pieces : List (List Char)} (hne : pieces ≠ [])
    (h : ∀ piece ∈ pieces, sep ∉ piece) : segments sep ([sep].intercalate pieces) = pieces := by
  induction pieces with
  | nil => exact absurd rfl hne
  | cons piece rest ih =>
    rw [List.forall_mem_cons] at h
    cases rest with
    | nil => simpa using segments_of_not_mem h.1
    | cons next rest =>
      rw [List.intercalate_cons_cons, List.append_assoc, List.singleton_append,
        segments_append_sep, segments_of_not_mem h.1, ih (by simp) h.2]
      rfl

theorem segments_injective : Function.Injective (segments sep) := fun as bs h =>
  (intercalate_segments as).symm.trans (h ▸ intercalate_segments bs)

/-- The pieces between separators are the pieces between others that stand in their place. -/
theorem segments_map_of_not_mem {old new : Char} {cs : List Char} (h : new ∉ cs) :
    segments new (cs.map fun c => if c = old then new else c) = segments old cs := by
  induction cs with
  | nil => rfl
  | cons c rest ih =>
    rw [List.mem_cons, not_or] at h
    rw [List.map_cons, segments, segments, ih h.2]
    by_cases hc : c = old
    · simp [hc]
    · simp [hc, Ne.symm h.1]

end ComponentWiring.Text
