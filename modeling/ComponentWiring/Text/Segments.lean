/-!
Cutting a text at a separator: at its first or last occurrence, or at all of them. Dotted names are
read with these: the package of a qualified name is what stands before its last dot, the simple
name what stands behind it.
-/

namespace ComponentWiring.Text

/-- The text before and behind the first `sep`. -/
def splitFirst (sep : Char) : List Char → Option (List Char × List Char)
  | [] => none
  | c :: rest =>
    if c = sep then some ([], rest)
    else (splitFirst sep rest).map fun (before, after) => (c :: before, after)

/-- The text before and behind the last `sep`. -/
def splitLast (sep : Char) : List Char → Option (List Char × List Char)
  | [] => none
  | c :: rest =>
    match splitLast sep rest with
    | some (before, after) => some (c :: before, after)
    | none => if c = sep then some ([], rest) else none

/-- The text up to the first `sep`, all of it if there is none. -/
def beforeFirst (sep : Char) (cs : List Char) : List Char :=
  cs.takeWhile (· != sep)

/-- The text behind the last `sep`, all of it if there is none. -/
def afterLast (sep : Char) (cs : List Char) : List Char :=
  match splitLast sep cs with
  | some (_, after) => after
  | none => cs

/-- The pieces between the occurrences of `sep`; there is always at least one. -/
def segments (sep : Char) : List Char → List (List Char)
  | [] => [[]]
  | c :: rest =>
    if c = sep then [] :: segments sep rest
    else
      match segments sep rest with
      | [] => [[c]]
      | piece :: pieces => (c :: piece) :: pieces

/-- The text before and behind the first occurrence of `needle`. -/
def splitAtText (needle : List Char) : List Char → Option (List Char × List Char)
  | [] => if needle.isEmpty then some ([], []) else none
  | c :: rest =>
    if needle.isPrefixOf (c :: rest) then some ([], (c :: rest).drop needle.length)
    else (splitAtText needle rest).map fun (before, after) => (c :: before, after)

/-- The text up to the first occurrence of `needle`, all of it if there is none. -/
def beforeText (needle cs : List Char) : List Char :=
  match splitAtText needle cs with
  | some (before, _) => before
  | none => cs

/-- `after` without the leading `needle`, if it starts with it. -/
def dropText? (needle cs : List Char) : Option (List Char) :=
  if needle.isPrefixOf cs then some (cs.drop needle.length) else none

theorem splitFirst_eq_some {sep : Char} {cs before after : List Char}
    (h : splitFirst sep cs = some (before, after)) : cs = before ++ sep :: after := by
  induction cs generalizing before with
  | nil => simp [splitFirst] at h
  | cons c rest ih =>
    rw [splitFirst] at h
    split at h
    · next hc => simp_all
    · obtain ⟨⟨b, a⟩, hb, he⟩ := Option.map_eq_some_iff.1 h
      simp only [Prod.mk.injEq] at he
      obtain ⟨rfl, rfl⟩ := he
      simp [ih hb]

theorem splitLast_eq_some {sep : Char} {cs before after : List Char}
    (h : splitLast sep cs = some (before, after)) : cs = before ++ sep :: after := by
  induction cs generalizing before with
  | nil => simp [splitLast] at h
  | cons c rest ih =>
    rw [splitLast] at h
    split at h
    · next b a hb =>
      simp only [Option.some.injEq, Prod.mk.injEq] at h
      obtain ⟨rfl, rfl⟩ := h
      simp [ih hb]
    · split at h
      · next hc => simp_all
      · simp at h

end ComponentWiring.Text
