import ComponentWiring.Source.Token

/-!
Cutting a comma-separated list into its parts. A comma counts where no bracket is open and no
literal; angle brackets count as brackets too, except that the mark of an arrow `->` closes
nothing. A cut never fails: where brackets do not close, the list stays together from there on.

Parameter lists need more care, since a `<` may be a comparison in a default value and then never
closes. Such a part is cut again at the first comma, angle brackets not counted, behind which
something of the shape `name:` follows.
-/

namespace ComponentWiring.Source

open Text

/-- How deep a place lies in brackets and literals, and whether a dash stands before it. -/
structure Nesting where
  depth : Nat := 0
  angles : Nat := 0
  literal : LiteralState := .code
  afterDash : Bool := false
  deriving DecidableEq, Repr, Inhabited

namespace Nesting

/-- The nesting behind one more character. -/
def step (trackAngles : Bool) (s : Nesting) (c : Char) : Nesting :=
  let moved : Nesting := { s with literal := s.literal.step c, afterDash := c == '-' }
  if s.literal ≠ .code then moved
  else if c = '(' ∨ c = '[' ∨ c = '{' then { moved with depth := s.depth + 1 }
  else if c = ')' ∨ c = ']' ∨ c = '}' then { moved with depth := s.depth - 1 }
  else if trackAngles ∧ c = '<' then { moved with angles := s.angles + 1 }
  else if trackAngles ∧ c = '>' ∧ ¬s.afterDash then { moved with angles := s.angles - 1 }
  else moved

/-- Whether a character separates two parts at this place. -/
def separates (s : Nesting) (c : Char) : Bool :=
  c == ',' && s.depth == 0 && s.angles == 0 && s.literal == .code

end Nesting

/-- The pieces between the separating commas, untrimmed; there is always at least one. -/
def cutFrom (trackAngles : Bool) : Nesting → List Char → List (List Char)
  | _, [] => [[]]
  | s, c :: rest =>
    let pieces := cutFrom trackAngles (s.step trackAngles c) rest
    if s.separates c then [] :: pieces
    else
      match pieces with
      | [] => [[c]]
      | piece :: others => (c :: piece) :: others

/-- The pieces without the last one if that is empty. -/
def dropEmptyLast : List (List Char) → List (List Char)
  | [] => []
  | [piece] => if piece.isEmpty then [] else [piece]
  | piece :: others => piece :: dropEmptyLast others

/-- The parts of a list, trimmed; a trailing comma adds none. -/
def topLevelParts (cs : List Char) : List (List Char) :=
  dropEmptyLast ((cutFrom true {} cs).map trim)

/-- The number of angle brackets that a text leaves open. -/
def openAngles (cs : List Char) : Nat :=
  (cs.foldl (Nesting.step true) {}).angles

/-- For each comma outside brackets, angle brackets not counted, the text before and behind it. -/
def commaSplits : Nesting → List Char → List (List Char × List Char)
  | _, [] => []
  | s, c :: rest =>
    let later := (commaSplits (s.step false c) rest).map fun (before, after) => (c :: before, after)
    if s.separates c then ([], rest) :: later else later

/-- The modifiers that can stand before a constructor parameter. -/
def parameterModifiers : List String :=
  ["public", "private", "protected", "internal", "override", "open", "final", "vararg"]

/-- The words that make a parameter a property. -/
def propertyWords : List String :=
  ["val", "var"]

/-- Reads on behind `val` or `var` if that can be done, and else from where it stands. -/
def optionalPropertyWord {α : Type} (finish : List Char → Option α) (cs : List Char) :
    Option (Bool × α) :=
  let here := (finish cs).map fun value => (false, value)
  match wordOf? propertyWords cs with
  | none => here
  | some (_, rest) =>
    match finish rest with
    | some value => some (true, value)
    | none => here

/-- Whether a text starts like a parameter: annotations, modifiers, a name and a colon. -/
def startsParameter (cs : List Char) : Bool :=
  (modifiersThen parameterModifiers (optionalPropertyWord nameAndColon?)
    (annotations (trimStart cs)).2).isSome

/-- The first place to cut a part whose angle brackets stay open. -/
def recut? (fragment : List Char) : Option (List Char × List Char) :=
  (commaSplits {} fragment).find? fun (_, after) => startsParameter after

/-! ## Parts are no longer than the list -/

theorem length_trimEnd_le (cs : List Char) : (trimEnd cs).length ≤ cs.length := by
  induction cs with
  | nil => simp [trimEnd]
  | cons c rest ih =>
    rw [trimEnd]
    split
    · split <;> simp
    · next kept hkept =>
      simp only [List.length_cons]
      omega

theorem length_trim_le (cs : List Char) : (trim cs).length ≤ cs.length :=
  Nat.le_trans (length_trimEnd_le _) (List.dropWhile_sublist _).length_le

theorem length_le_of_mem_cutFrom {track : Bool} {s : Nesting} {cs piece : List Char}
    (h : piece ∈ cutFrom track s cs) : piece.length ≤ cs.length := by
  induction cs generalizing s piece with
  | nil => simp_all [cutFrom]
  | cons c rest ih =>
    rw [cutFrom] at h
    split at h
    · rcases List.mem_cons.1 h with rfl | h
      · simp
      · exact Nat.le_succ_of_le (ih h)
    · split at h
      · simp_all
      · next p ps hp =>
        rcases List.mem_cons.1 h with rfl | h
        · have := ih (hp ▸ List.mem_cons_self)
          simpa using this
        · exact Nat.le_succ_of_le (ih (hp ▸ List.mem_cons_of_mem _ h))

theorem mem_of_mem_dropEmptyLast {piece : List Char} {pieces : List (List Char)}
    (h : piece ∈ dropEmptyLast pieces) : piece ∈ pieces := by
  fun_induction dropEmptyLast pieces <;> simp_all
  rcases h with h | h <;> simp_all

theorem length_le_of_mem_topLevelParts {cs piece : List Char} (h : piece ∈ topLevelParts cs) :
    piece.length ≤ cs.length := by
  obtain ⟨raw, hraw, rfl⟩ := List.mem_map.1 (mem_of_mem_dropEmptyLast h)
  exact Nat.le_trans (length_trim_le raw) (length_le_of_mem_cutFrom hraw)

theorem length_lt_of_mem_commaSplits {s : Nesting} {cs before after : List Char}
    (h : (before, after) ∈ commaSplits s cs) : before.length + after.length < cs.length := by
  induction cs generalizing s before with
  | nil => simp [commaSplits] at h
  | cons c rest ih =>
    rw [commaSplits] at h
    have later : (before, after) ∈ (commaSplits (s.step false c) rest).map
        (fun (b, a) => (c :: b, a)) → before.length + after.length < (c :: rest).length := by
      intro hm
      obtain ⟨⟨b, a⟩, hb, he⟩ := List.mem_map.1 hm
      simp only [Prod.mk.injEq] at he
      obtain ⟨rfl, rfl⟩ := he
      have := ih hb
      simp only [List.length_cons]
      omega
    split at h
    · rcases List.mem_cons.1 h with h | h
      · simp only [Prod.mk.injEq] at h
        obtain ⟨rfl, rfl⟩ := h
        simp
      · exact later h
    · exact later h

theorem length_lt_of_recut? {fragment before after : List Char}
    (h : recut? fragment = some (before, after)) : after.length < fragment.length := by
  have := length_lt_of_mem_commaSplits (List.mem_of_find?_eq_some h)
  omega

/-- The parts of a parameter list, trimmed. -/
def parameterParts (cs : List Char) : List (List Char) :=
  (topLevelParts cs).attach.flatMap fun ⟨fragment, _hmem⟩ =>
    if openAngles fragment = 0 then [fragment]
    else
      match _hcut : recut? fragment with
      | some (before, after) => trim before :: parameterParts after
      | none => [fragment]
termination_by cs.length
decreasing_by
  have := length_le_of_mem_topLevelParts _hmem
  have := length_lt_of_recut? _hcut
  omega

end ComponentWiring.Source
