/-!
Places in a text. An offset counts bytes of the UTF-8 encoding; a line number is one more than the
number of line breaks before the place.
-/

namespace ComponentWiring.Text

/-- The number of bytes that a text takes in UTF-8. -/
def byteLength : List Char → Nat
  | [] => 0
  | c :: rest => c.utf8Size + byteLength rest

/-- The text before and from the byte `offset`; `none` behind the end and inside a character. -/
def splitAtByte : Nat → List Char → Option (List Char × List Char)
  | 0, cs => some ([], cs)
  | _ + 1, [] => none
  | n + 1, c :: rest =>
    if c.utf8Size ≤ n + 1 then
      (splitAtByte (n + 1 - c.utf8Size) rest).map fun (before, after) => (c :: before, after)
    else none

/-- The number of line breaks. -/
def lineBreaks (cs : List Char) : Nat :=
  cs.count '\n'

/-- The line of the byte `offset`, counted from one; one for an offset that is no place of the
text. -/
def lineAt (cs : List Char) (offset : Nat) : Nat :=
  match splitAtByte offset cs with
  | some (before, _) => lineBreaks before + 1
  | none => 1

@[simp] theorem byteLength_nil : byteLength [] = 0 := rfl

@[simp] theorem byteLength_cons (c : Char) (cs : List Char) :
    byteLength (c :: cs) = c.utf8Size + byteLength cs := rfl

@[simp] theorem byteLength_append (as bs : List Char) :
    byteLength (as ++ bs) = byteLength as + byteLength bs := by
  induction as with
  | nil => simp
  | cons a as ih => simp [ih, Nat.add_assoc]

theorem splitAtByte_append (before after : List Char) :
    splitAtByte (byteLength before) (before ++ after) = some (before, after) := by
  induction before with
  | nil => cases after <;> simp [splitAtByte]
  | cons c cs ih =>
    have hpos : 0 < c.utf8Size := c.utf8Size_pos
    obtain ⟨n, hn⟩ : ∃ n, byteLength (c :: cs) = n + 1 :=
      ⟨byteLength (c :: cs) - 1, by simp; omega⟩
    have hle : c.utf8Size ≤ n + 1 := by simp at hn; omega
    have hsub : n + 1 - c.utf8Size = byteLength cs := by simp at hn; omega
    rw [hn, List.cons_append, splitAtByte, if_pos hle, hsub, ih]
    rfl

/-- Two cuts of a text at the same byte are the same. -/
theorem append_inj_of_byteLength {as bs as' bs' : List Char} (h : as ++ bs = as' ++ bs')
    (hlength : byteLength as = byteLength as') : as = as' ∧ bs = bs' := by
  have hcut := splitAtByte_append as bs
  rw [h, hlength, splitAtByte_append] at hcut
  exact (Prod.mk.inj (Option.some.inj hcut)).imp Eq.symm Eq.symm

theorem byteLength_pos {cs : List Char} (h : cs ≠ []) : 0 < byteLength cs := by
  obtain ⟨c, rest, rfl⟩ := List.exists_cons_of_ne_nil h
  exact Nat.add_pos_left c.utf8Size_pos _

/-- Of two cuts of a text the one at the earlier byte leaves what is between them as well. -/
theorem exists_between_of_byteLength_le {as bs as' bs' : List Char} (h : as ++ bs = as' ++ bs')
    (hle : byteLength as ≤ byteLength as') :
    ∃ between, as' = as ++ between ∧ bs = between ++ bs' := by
  rcases List.append_eq_append_iff.mp h with ⟨between, has', hbs⟩ | ⟨between, has, hbs'⟩
  · exact ⟨between, has', hbs⟩
  · cases between with
    | nil => exact ⟨[], by simp [has], hbs'.symm⟩
    | cons c between =>
      have hpos := byteLength_pos (List.cons_ne_nil c between)
      rw [has, byteLength_append] at hle
      omega

/-- The line of a place is one more than the number of line breaks before it. -/
theorem lineAt_append (before after : List Char) :
    lineAt (before ++ after) (byteLength before) = lineBreaks before + 1 := by
  simp [lineAt, splitAtByte_append]

end ComponentWiring.Text
