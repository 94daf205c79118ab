import ComponentWiring.Source.Fragment
import ComponentWiring.Source.Imports

/-!
Types as they are written. `readType` reads `Name<Arguments>?` and resolves the names in it through
the table of imports; anything else becomes an opaque reference that keeps the text and lists the
imported names in it.
-/

namespace ComponentWiring.Source

open Text

/-- An ASCII name, as far as it goes. -/
def asciiName? : List Char → Option (List Char × List Char)
  | [] => none
  | c :: rest =>
    if isNameStart c then
      some (c :: rest.takeWhile isAsciiWordChar, rest.dropWhile isAsciiWordChar)
    else none

/-- A dot and an ASCII name behind it. -/
def dotAndName? : List Char → Option (List Char × List Char)
  | '.' :: rest => (asciiName? rest).map fun (name, left) => ('.' :: name, left)
  | _ => none

/-- ASCII names joined by dots, as far as they go. -/
def dottedName? (cs : List Char) : Option (List Char × List Char) := do
  let (first, rest) ← asciiName? cs
  let (others, left) := readAll dotAndName? rest
  return (first ++ others.flatten, left)

/-- Whether a text is nothing but ASCII names joined by dots. -/
def isDottedName (cs : List Char) : Bool :=
  match dottedName? cs with
  | some (_, []) => true
  | _ => false

/-- The imported names that a text mentions, resolved, in order. -/
def mentionedTypes (imports : Imports) (cs : List Char) : List TypeExpr :=
  (occurrences (fun _ => dottedName?) cs).filterMap fun found =>
    match imports.imported? (String.ofList (beforeFirst '.' found.value)) with
    | some _ => some { name := imports.resolve (String.ofList found.value) }
    | none => none

/-- A type that is kept as it is written. -/
def opaqueType (imports : Imports) (cs : List Char) : TypeExpr :=
  { name := String.ofList cs, arguments := mentionedTypes imports cs, isOpaque := true }

/-- The text before a trailing question mark and whether there is one. The question mark of a
function type such as `(A) -> (B)?` belongs to the text. -/
def splitNullable (cs : List Char) : List Char × Bool :=
  match cs.getLast? with
  | some '?' =>
    let body := trimEnd cs.dropLast
    if body.getLast? = some ')' then (cs, false) else (body, true)
  | _ => (cs, false)

/-- The text before the first angle bracket and the text in the brackets, if they end the text. -/
def splitArguments (cs : List Char) : List Char × Option (List Char) :=
  match splitFirst '<' cs with
  | some (head, after) =>
    if after.getLast? = some '>' then (head, some after.dropLast) else (cs, none)
  | none => (cs, none)

theorem length_splitNullable_le (cs : List Char) :
    (splitNullable cs).1.length ≤ cs.length := by
  unfold splitNullable
  split
  · dsimp only
    split
    · exact Nat.le_refl _
    · have := length_trimEnd_le cs.dropLast
      simp only [List.length_dropLast] at this
      show (trimEnd cs.dropLast).length ≤ cs.length
      omega
  · exact Nat.le_refl _

theorem length_lt_of_splitArguments {cs inner : List Char}
    (h : (splitArguments cs).2 = some inner) : inner.length < cs.length := by
  unfold splitArguments at h
  split at h
  · next head after hsplit =>
    have hcs := splitFirst_eq_some hsplit
    split at h
    · simp only [Option.some.injEq] at h
      subst h
      simp only [hcs, List.length_append, List.length_cons, List.length_dropLast]
      omega
    · simp at h
  · simp at h

/-- Reads a type. Names in `locals`, such as type parameters, stay as they are written. -/
def readType (imports : Imports) (locals : List String) (cs : List Char) : TypeExpr :=
  let text := trim cs
  let body := splitNullable text
  let parts := splitArguments body.1
  let head := trim parts.1
  if !isDottedName head then opaqueType imports text
  else
    let written := String.ofList head
    let arguments :=
      match _hinner : parts.2 with
      | none => []
      | some inner =>
        (topLevelParts inner).attach.map fun ⟨piece, _hmem⟩ => readType imports locals piece
    { name := if locals.contains written then written else imports.resolve written
      arguments
      nullable := body.2 }
termination_by cs.length
decreasing_by
  have h₁ := length_le_of_mem_topLevelParts _hmem
  have h₂ := length_lt_of_splitArguments _hinner
  have h₃ : body.1.length ≤ (trim cs).length := length_splitNullable_le (trim cs)
  have h₄ := length_trim_le cs
  omega

end ComponentWiring.Source
