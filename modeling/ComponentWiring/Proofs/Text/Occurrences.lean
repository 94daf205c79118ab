import Mathlib.Data.List.Basic
import ComponentWiring.Text.Occurrences

/-!
Where a reader succeeds in a text that is put together from parts: nowhere in a part in which it
fails at every place, and once in a part that it takes as a whole.
-/

namespace ComponentWiring.Text

variable {α : Type} {reader : ReaderAt α} {as bs : List Char}

theorem getLast?_cons_or (a : Char) (as : List Char) (previous : Option Char) :
    (a :: as).getLast?.or previous = as.getLast?.or (some a) := by
  rw [List.getLast?_cons]
  cases as.getLast? <;> rfl

/-- The characters that an occurrence took are passed over. -/
theorem occurrencesFrom_skip (offset : Nat) (previous : Option Char) :
    occurrencesFrom reader as.length offset previous (as ++ bs) =
      occurrencesFrom reader 0 (offset + byteLength as) (as.getLast?.or previous) bs := by
  induction as generalizing offset previous with
  | nil => simp
  | cons a as ih =>
    rw [List.length_cons, List.cons_append, occurrencesFrom, ih, getLast?_cons_or,
      byteLength_cons, Nat.add_assoc]

/-- A part in which the reader fails everywhere holds no occurrence. -/
theorem occurrencesFrom_of_none {previous : Option Char}
    (h : ∀ before c after, as = before ++ c :: after →
      reader (before.getLast?.or previous) (c :: (after ++ bs)) = none) (offset : Nat) :
    occurrencesFrom reader 0 offset previous (as ++ bs) =
      occurrencesFrom reader 0 (offset + byteLength as) (as.getLast?.or previous) bs := by
  induction as generalizing offset previous with
  | nil => simp
  | cons a as ih =>
    have hhere : reader previous (a :: (as ++ bs)) = none := h [] a as rfl
    have hlater : ∀ before c after, as = before ++ c :: after →
        reader (before.getLast?.or (some a)) (c :: (after ++ bs)) = none := by
      rintro before c after rfl
      rw [← getLast?_cons_or a before previous]
      exact h (a :: before) c after rfl
    rw [List.cons_append, occurrencesFrom, hhere, ih hlater, getLast?_cons_or, byteLength_cons,
      Nat.add_assoc]

/-- A part that the reader takes is one occurrence. -/
theorem occurrencesFrom_of_some {offset : Nat} {previous : Option Char} {value : α} (hne : as ≠ [])
    (h : reader previous (as ++ bs) = some (value, bs)) :
    occurrencesFrom reader 0 offset previous (as ++ bs) =
      ⟨value, offset + byteLength as, bs⟩ ::
        occurrencesFrom reader 0 (offset + byteLength as) (as.getLast?.or previous) bs := by
  obtain ⟨a, as, rfl⟩ := List.exists_cons_of_ne_nil hne
  have htaken : (a :: (as ++ bs)).length - bs.length = as.length + 1 := by
    simp only [List.length_cons, List.length_append]
    omega
  rw [List.cons_append] at h ⊢
  rw [occurrencesFrom, h]
  simp only [htaken, Nat.add_sub_cancel, occurrencesFrom_skip, getLast?_cons_or, byteLength_cons,
    List.take_succ_cons, List.take_left, Nat.add_assoc]

/-! ## Which places are read -/

/-- How many of the characters behind the first one belong to what is read at a place. -/
def takenBehind (reader : ReaderAt α) (previous : Option Char) (cs : List Char) : Nat :=
  match reader previous cs with
  | some (_, left) => cs.length - left.length - 1
  | none => 0

/-- Whether reading from the left comes to the place behind `before`: nothing that is read there
reaches beyond it. `skip` characters still belong to what was read before. -/
def ComesTo (reader : ReaderAt α) :
    (skip : Nat) → (previous : Option Char) → (before after : List Char) → Prop
  | skip, _, [], _ => skip = 0
  | skip + 1, _, c :: before, after => ComesTo reader skip (some c) before after
  | 0, previous, c :: before, after =>
    ComesTo reader (takenBehind reader previous (c :: (before ++ after))) (some c) before after

/-- A place of a text is its start, or a place behind its first character. -/
theorem exists_split_cons_iff {c : Char} {cs : List Char} {p : List Char → Char → List Char → Prop} :
    (∃ before d after, c :: cs = before ++ d :: after ∧ p before d after) ↔
      p [] c cs ∨ ∃ before d after, cs = before ++ d :: after ∧ p (c :: before) d after := by
  constructor
  · rintro ⟨before, d, after, heq, h⟩
    cases before with
    | nil =>
      obtain ⟨rfl, rfl⟩ := List.cons.inj heq
      exact .inl h
    | cons b before =>
      obtain ⟨rfl, rfl⟩ := List.cons.inj heq
      exact .inr ⟨before, d, after, rfl, h⟩
  · rintro (h | ⟨before, d, after, rfl, h⟩)
    · exact ⟨[], c, cs, rfl, h⟩
    · exact ⟨c :: before, d, after, rfl, h⟩

/-- What a reader finds is what it reads at the places that reading comes to. -/
theorem mem_occurrencesFrom_iff {found : Occurrence α} {skip offset : Nat}
    {previous : Option Char} {cs : List Char} :
    found ∈ occurrencesFrom reader skip offset previous cs ↔ ∃ before c after,
      cs = before ++ c :: after ∧ ComesTo reader skip previous before (c :: after) ∧
        reader (before.getLast?.or previous) (c :: after) = some (found.value, found.rest) ∧
        found.stop = offset + byteLength before +
          byteLength ((c :: after).take ((c :: after).length - found.rest.length)) := by
  induction cs generalizing skip offset previous with
  | nil => cases skip <;> simp [occurrencesFrom]
  | cons c rest ih =>
    rw [exists_split_cons_iff]
    cases skip with
    | succ skip => simp [occurrencesFrom, ih, ComesTo, getLast?_cons_or, Nat.add_assoc]
    | zero =>
      have hlater : found ∈ occurrencesFrom reader (takenBehind reader previous (c :: rest))
            (offset + c.utf8Size) (some c) rest ↔
          ∃ before d after, rest = before ++ d :: after ∧
            ComesTo reader 0 previous (c :: before) (d :: after) ∧
            reader ((c :: before).getLast?.or previous) (d :: after) =
              some (found.value, found.rest) ∧
            found.stop = offset + byteLength (c :: before) +
              byteLength ((d :: after).take ((d :: after).length - found.rest.length)) := by
        simp only [ih, getLast?_cons_or, byteLength_cons, Nat.add_assoc, ComesTo]
        refine exists_congr fun before => exists_congr fun d => exists_congr fun after =>
          and_congr_right fun heq => ?_
        rw [heq]
      rw [occurrencesFrom, ← hlater, takenBehind]
      cases hread : reader previous (c :: rest) with
      | none => simp [hread]
      | some r =>
        obtain ⟨value, left⟩ := r
        obtain ⟨value', stop, left'⟩ := found
        simp only [List.mem_cons, Occurrence.mk.injEq, ComesTo, List.getLast?_nil, Option.none_or,
          hread, byteLength_nil, Nat.add_zero, Option.some.injEq, Prod.mk.injEq, true_and]
        refine or_congr_left ⟨?_, ?_⟩
        · rintro ⟨rfl, rfl, rfl⟩
          exact ⟨⟨rfl, rfl⟩, rfl⟩
        · rintro ⟨⟨rfl, rfl⟩, rfl⟩
          exact ⟨rfl, rfl, rfl⟩

/-- If a reader leaves an end of the text, what it finds ends where the text behind it starts. -/
theorem mem_occurrences_iff {found : Occurrence α} {cs : List Char}
    (hreader : ∀ previous cs value left, reader previous cs = some (value, left) → left <:+ cs) :
    found ∈ occurrences reader cs ↔ found.stop + byteLength found.rest = byteLength cs ∧
      ∃ before after, cs = before ++ after ∧ after ≠ [] ∧ ComesTo reader 0 none before after ∧
        reader before.getLast? after = some (found.value, found.rest) := by
  rw [occurrences, mem_occurrencesFrom_iff]
  have hstop {before after : List Char}
      (hread : reader before.getLast? after = some (found.value, found.rest)) :
      found.stop = 0 + byteLength before + byteLength (after.take (after.length - found.rest.length)) ↔
        found.stop + byteLength found.rest = byteLength (before ++ after) := by
    obtain ⟨taken, rfl⟩ := hreader _ _ _ _ hread
    rw [List.length_append, Nat.add_sub_cancel, List.take_left]
    simp only [byteLength_append]
    omega
  constructor
  · rintro ⟨before, c, after, rfl, hcomes, hread, hend⟩
    rw [Option.or_none] at hread
    exact ⟨(hstop hread).mp hend, before, c :: after, rfl, List.cons_ne_nil _ _, hcomes, hread⟩
  · rintro ⟨hend, before, after, rfl, hne, hcomes, hread⟩
    obtain ⟨c, after, rfl⟩ := List.exists_cons_of_ne_nil hne
    exact ⟨before, c, after, rfl, hcomes, by rwa [Option.or_none], (hstop hread).mpr hend⟩

/-- What keeps to the text in front of a place does not reach beyond it. -/
theorem comesTo_of_keeps {skip : Nat} {previous : Option Char} {before after : List Char}
    (hskip : skip ≤ before.length)
    (h : ∀ front c more, before = front ++ c :: more → ∀ value left,
      reader (front.getLast?.or previous) (c :: (more ++ after)) = some (value, left) →
        after.length ≤ left.length) : ComesTo reader skip previous before after := by
  induction before generalizing skip previous with
  | nil => exact Nat.le_zero.mp hskip
  | cons b before ih =>
    have hlater {skip : Nat} (hskip : skip ≤ before.length) :
        ComesTo reader skip (some b) before after := by
      refine ih hskip fun front c more heq value left hread => ?_
      refine h (b :: front) c more (by rw [heq]; rfl) value left ?_
      rwa [getLast?_cons_or]
    cases skip with
    | succ skip => exact hlater (Nat.le_of_succ_le_succ hskip)
    | zero =>
      refine hlater ?_
      unfold takenBehind
      split
      · next value left hread =>
        have hlength := h [] b before rfl value left hread
        simp only [List.length_cons, List.length_append]
        omega
      · exact Nat.zero_le _

/-- What a reader finds it reads at a place of the text. -/
theorem exists_of_mem_occurrences {cs : List Char} {found : Occurrence α}
    (h : found ∈ occurrences reader cs) :
    ∃ before after, cs = before ++ after ∧
      reader before.getLast? after = some (found.value, found.rest) := by
  obtain ⟨before, c, after, rfl, -, hread, -⟩ := mem_occurrencesFrom_iff.mp h
  exact ⟨before, c :: after, rfl, by rwa [Option.or_none] at hread⟩

/-- Without occurrences the reader fails at every place. -/
theorem eq_none_of_occurrencesFrom_eq_nil {offset : Nat} {previous : Option Char} {c : Char}
    (h : occurrencesFrom reader 0 offset previous (as ++ c :: bs) = []) :
    reader (as.getLast?.or previous) (c :: bs) = none := by
  induction as generalizing offset previous with
  | nil =>
    rw [List.nil_append, occurrencesFrom] at h
    split at h
    · cases h
    · next hnone => exact hnone
  | cons a as ih =>
    rw [List.cons_append, occurrencesFrom] at h
    split at h
    · cases h
    · rw [getLast?_cons_or]
      exact ih h

/-- A reader that succeeds at some place finds something, there or before. -/
theorem occurrences_ne_nil {c : Char} {r : α × List Char}
    (h : reader as.getLast? (c :: bs) = some r) : occurrences reader (as ++ c :: bs) ≠ [] := by
  intro hnil
  rw [← Option.or_none (o := as.getLast?), eq_none_of_occurrencesFrom_eq_nil hnil] at h
  cases h

/-- Where a reader leaves an end of the text, an occurrence stops where the text behind it starts. -/
theorem stop_of_mem_occurrences {cs : List Char} {found : Occurrence α}
    (hreader : ∀ previous cs value left, reader previous cs = some (value, left) → left <:+ cs)
    (h : found ∈ occurrences reader cs) : found.stop + byteLength found.rest = byteLength cs :=
  ((mem_occurrences_iff hreader).mp h).1

/-- What is taken for an occurrence stands between a text and the rest, and it stops there. -/
theorem exists_taken_of_mem_occurrences {cs : List Char} {found : Occurrence α}
    (hreader : ∀ previous cs value left, reader previous cs = some (value, left) → left <:+ cs)
    (h : found ∈ occurrences reader cs) : ∃ before taken, cs = before ++ (taken ++ found.rest) ∧
      found.stop = byteLength (before ++ taken) ∧
        reader before.getLast? (taken ++ found.rest) = some (found.value, found.rest) := by
  have hstop := stop_of_mem_occurrences hreader h
  obtain ⟨before, after, rfl, hread⟩ := exists_of_mem_occurrences h
  obtain ⟨taken, rfl⟩ := hreader _ _ _ _ hread
  refine ⟨before, taken, rfl, ?_, hread⟩
  simp only [byteLength_append] at hstop ⊢
  omega

/-! ## Places -/

section Places

-- Of what is read, at least the last `back` bytes belong to it.
variable (back : α → Nat) (hback : ∀ previous cs value left,
  reader previous cs = some (value, left) →
    left <:+ cs ∧ byteLength left + back value ≤ byteLength cs)

include hback

theorem back_le_of_mem_occurrencesFrom {skip offset : Nat} {previous : Option Char}
    {cs : List Char} {found : Occurrence α}
    (h : found ∈ occurrencesFrom reader skip offset previous cs) :
    offset + byteLength (cs.take skip) + back found.value ≤ found.stop := by
  induction cs generalizing skip offset previous with
  | nil => cases skip <;> cases h
  | cons c rest ih =>
    cases skip with
    | succ skip =>
      have hlater := ih h
      rw [List.take_succ_cons, byteLength_cons]
      omega
    | zero =>
      rw [occurrencesFrom] at h
      split at h
      · next value left hread =>
        rcases List.mem_cons.mp h with rfl | h
        · obtain ⟨⟨taken, htaken⟩, hlength⟩ := hback _ _ _ _ hread
          have htake : (c :: rest).take ((c :: rest).length - left.length) = taken := by
            rw [← htaken, List.length_append, Nat.add_sub_cancel, List.take_left]
          rw [← htaken, byteLength_append] at hlength
          rw [htake, List.take_zero, byteLength_nil]
          dsimp only
          omega
        · have hlater := ih h
          rw [List.take_zero, byteLength_nil]
          omega
      · have hlater := ih h
        rw [List.take_zero, byteLength_nil] at hlater ⊢
        omega

/-- What is read later does not reach back to where something was read before. -/
theorem pairwise_occurrencesFrom (hpos : ∀ previous cs value left,
      reader previous cs = some (value, left) → left.length < cs.length)
    (skip offset : Nat) (previous : Option Char) (cs : List Char) :
    (occurrencesFrom reader skip offset previous cs).Pairwise fun a b =>
      a.stop + back b.value ≤ b.stop := by
  induction cs generalizing skip offset previous with
  | nil => cases skip <;> exact .nil
  | cons c rest ih =>
    cases skip with
    | succ skip => exact ih ..
    | zero =>
      rw [occurrencesFrom]
      split
      · next value left hread =>
        refine List.pairwise_cons.mpr ⟨fun found hmem => ?_, ih ..⟩
        have hlater := back_le_of_mem_occurrencesFrom back hback hmem
        have hshort := hpos _ _ _ _ hread
        obtain ⟨n, hn⟩ : ∃ n, (c :: rest).length - left.length = n + 1 :=
          ⟨(c :: rest).length - left.length - 1, by omega⟩
        rw [hn, Nat.add_sub_cancel] at hlater
        rw [hn, List.take_succ_cons, byteLength_cons]
        dsimp only
        omega
      · exact ih ..

end Places

/-- A reader that says more about what it reads finds it at the same places. -/
theorem map_occurrences {β : Type} {reader' : ReaderAt β} {f : β → α}
    (h : ∀ previous cs, reader previous cs = (reader' previous cs).map fun r => (f r.1, r.2))
    (cs : List Char) :
    occurrences reader cs =
      (occurrences reader' cs).map fun found => ⟨f found.value, found.stop, found.rest⟩ := by
  have hfrom : ∀ (cs : List Char) (skip offset : Nat) (previous : Option Char),
      occurrencesFrom reader skip offset previous cs =
        (occurrencesFrom reader' skip offset previous cs).map fun found =>
          ⟨f found.value, found.stop, found.rest⟩ := by
    intro cs
    induction cs with
    | nil => intro skip; cases skip <;> exact fun _ _ => rfl
    | cons c rest ih =>
      intro skip offset previous
      cases skip with
      | succ skip => exact ih ..
      | zero =>
        rw [occurrencesFrom, occurrencesFrom, h]
        cases reader' previous (c :: rest) with
        | none => exact ih ..
        | some r => exact congrArg (_ :: ·) (ih ..)
  exact hfrom cs 0 0 none

theorem comesTo_map {β : Type} {reader' : ReaderAt β} {f : β → α}
    (h : ∀ previous cs, reader previous cs = (reader' previous cs).map fun r => (f r.1, r.2))
    {skip : Nat} {previous : Option Char} {before after : List Char} :
    ComesTo reader skip previous before after ↔ ComesTo reader' skip previous before after := by
  have htaken (previous : Option Char) (cs : List Char) :
      takenBehind reader previous cs = takenBehind reader' previous cs := by
    rw [takenBehind, takenBehind, h]
    cases reader' previous cs <;> rfl
  induction before generalizing skip previous with
  | nil => cases skip <;> rfl
  | cons c before ih =>
    cases skip with
    | succ skip => exact ih
    | zero =>
      rw [ComesTo, ComesTo, htaken]
      exact ih

/-! ## Readers that do not look back -/

section Forward

variable {read : List Char → Option (α × List Char)}

/-- What such a reader finds does not depend on where the text stands. -/
theorem map_value_occurrencesFrom (skip offset offset' : Nat) (previous previous' : Option Char)
    (cs : List Char) :
    (occurrencesFrom (fun _ => read) skip offset previous cs).map (·.value) =
      (occurrencesFrom (fun _ => read) skip offset' previous' cs).map (·.value) := by
  induction cs generalizing skip offset offset' previous previous' with
  | nil => cases skip <;> rfl
  | cons c cs ih =>
    cases skip with
    | succ skip => exact ih ..
    | zero =>
      rw [occurrencesFrom, occurrencesFrom]
      cases read (c :: cs) with
      | none => exact ih ..
      | some r => exact congrArg (r.1 :: ·) (ih ..)

/-- If more text behind only lengthens what the reader leaves, it finds in two texts one behind the
other what it finds in each of them. -/
theorem map_value_occurrences_append
    (h : ∀ c cs, read (c :: (cs ++ bs)) = (read (c :: cs)).map fun r => (r.1, r.2 ++ bs))
    (as : List Char) :
    (occurrences (fun _ => read) (as ++ bs)).map (·.value) =
      (occurrences (fun _ => read) as).map (·.value) ++
        (occurrences (fun _ => read) bs).map (·.value) := by
  have hskip : ∀ skip ≤ as.length, ∀ offset previous,
      (occurrencesFrom (fun _ => read) skip offset previous (as ++ bs)).map (·.value) =
        (occurrencesFrom (fun _ => read) skip offset previous as).map (·.value) ++
          (occurrences (fun _ => read) bs).map (·.value) := by
    induction as with
    | nil =>
      intro skip hle offset previous
      obtain rfl : skip = 0 := by simpa using hle
      exact map_value_occurrencesFrom ..
    | cons a as ih =>
      intro skip hle offset previous
      cases skip with
      | succ skip => exact ih skip (by simpa using hle) ..
      | zero =>
        rw [List.cons_append, occurrencesFrom, occurrencesFrom, h]
        cases read (a :: as) with
        | none => exact ih 0 (Nat.zero_le _) ..
        | some r =>
          have htaken : (a :: (as ++ bs)).length - (r.2 ++ bs).length =
              (a :: as).length - r.2.length := by
            simp only [List.length_cons, List.length_append]
            omega
          simp only [Option.map_some, htaken, List.map_cons, List.cons_append]
          refine congrArg (r.1 :: ·) (ih _ ?_ ..)
          simp only [List.length_cons]
          omega
  exact hskip 0 (Nat.zero_le _) 0 none

end Forward

end ComponentWiring.Text
