import ComponentWiring.Proofs.Source.BeforeQuotes
import ComponentWiring.Proofs.Source.Delimiters

/-!
Where the header of a class ends. `behindHeader?` is the text behind type parameters, constructor
and supertypes, where the body starts if the class has one. A header that ends in front of a quote
is read from the text in front of the quote alone (`front_read_append_quote`); only the body can go
on behind it, and that is read from where the header ends (`Header.body_read_eq`).
-/

namespace ComponentWiring.Source

open Text

/-! ## The parts of a header -/

/-- The text behind type parameters; nothing where a bracket is not closed. -/
def behindTypeParameters? (cs : List Char) : Option (List Char) :=
  match trimStart cs with
  | '<' :: rest => (enclosed? '<' '>' ('<' :: rest)).map fun r => trimStart r.2
  | rest => some rest

/-- The text behind a parameter list; nothing where its parenthesis is not closed. -/
def behindParameters? (cs : List Char) : Option (List Char) :=
  match cs with
  | '(' :: rest => (enclosed? '(' ')' ('(' :: rest)).map (·.2)
  | rest => some rest

theorem behindParameters?_of_solid {cs : List Char} (h : ∀ inner, cs ≠ '(' :: inner) :
    behindParameters? cs = some cs := by
  unfold behindParameters?
  split
  · next inner => exact absurd rfl (h inner)
  · rfl

/-- The text behind a constructor. -/
def behindConstructor? (cs : List Char) : Option (List Char) :=
  behindParameters? ((constructorPrefix? cs).getD (.everywhere, cs)).2

/-- The text behind a supertype list. -/
def behindSupertypes (cs : List Char) : List Char :=
  match trimStart cs with
  | ':' :: rest => trimStart (supertypeStretch {} rest).2
  | rest => rest

/-- The text behind the header of a class; nothing where a bracket is not closed. -/
def behindHeader? (cs : List Char) : Option (List Char) :=
  (behindTypeParameters? cs).bind fun cs => (behindConstructor? cs).map behindSupertypes

/-- The body that starts a text. -/
def bodyText? (cs : List Char) : Option (List Char) :=
  match cs with
  | '{' :: rest => (enclosed? '{' '}' ('{' :: rest)).map (·.1)
  | _ => none

namespace Header

variable {header : Header} {offset total : Nat} {cs : List Char}

/-- A header without the body of the class. -/
def front (header : Header) : Header :=
  { header with body := none }

/-- A header with the body that starts a text, if one does. -/
def withBody (header : Header) (total : Nat) (cs : List Char) : Header :=
  match cs, enclosed? '{' '}' cs with
  | '{' :: _, some (inside, _) => { header with body := some ⟨total - byteLength cs + 1, inside⟩ }
  | _, _ => header

theorem withBody_cases (header : Header) (total : Nat) (cs : List Char) :
    (∃ inside, bodyText? cs = some inside ∧ header.withBody total cs =
      { header with body := some ⟨total - byteLength cs + 1, inside⟩ }) ∨
    (bodyText? cs = none ∧ header.withBody total cs = header) := by
  unfold withBody bodyText?
  cases cs with
  | nil => exact .inr ⟨rfl, rfl⟩
  | cons c rest =>
    by_cases hbrace : c = '{'
    · subst hbrace
      cases henclosed : enclosed? '{' '}' ('{' :: rest) with
      | none => exact .inr ⟨by simp only [henclosed, Option.map_none], rfl⟩
      | some r => exact .inl ⟨r.1, by simp only [henclosed, Option.map_some], rfl⟩
    · exact .inr ⟨by simp [hbrace], by simp [hbrace]⟩

theorem front_withBody (header : Header) (total : Nat) (cs : List Char) :
    (header.withBody total cs).front = header.front := by
  rcases header.withBody_cases total cs with ⟨inside, -, h⟩ | ⟨-, h⟩
  · rw [h]
    rfl
  · rw [h]

theorem body_withBody (hbody : header.body = none) :
    (header.withBody total cs).body.map (·.text) = bodyText? cs := by
  rcases header.withBody_cases total cs with ⟨inside, htext, h⟩ | ⟨htext, h⟩
  · rw [h, htext]
    rfl
  · rw [h, htext, hbody]
    rfl

/-- The supertypes at the front of a text, if there is a list of them. -/
def supertypesAt (header : Header) (cs : List Char) : List (List Char) :=
  match trimStart cs with
  | ':' :: rest => supertypeNames (supertypeStretch {} rest).1
  | _ => header.supertypes

theorem readTail_eq : header.readTail offset cs =
    { header with supertypes := header.supertypesAt cs }.withBody
      (offset + byteLength cs) (behindSupertypes cs) := by
  have hread : ∀ rest, trimStart cs = rest → header.readTail offset cs =
      match rest with
      | ':' :: rest =>
        { header with supertypes := supertypeNames (supertypeStretch {} rest).1 }.withBody
          (offset + byteLength cs) (trimStart (supertypeStretch {} rest).2)
      | rest => header.withBody (offset + byteLength cs) rest := by
    rintro rest rfl
    rfl
  unfold supertypesAt behindSupertypes
  cases htrim : trimStart cs with
  | nil => exact hread _ htrim
  | cons c rest =>
    rw [hread _ htrim]
    by_cases hcolon : c = ':'
    · subst hcolon
      rfl
    · simp [hcolon]

theorem body_readTail_eq (hbody : header.body = none) :
    (header.readTail offset cs).body.map (·.text) = bodyText? (behindSupertypes cs) := by
  rw [readTail_eq]
  exact body_withBody hbody

/-- What stands behind the keyword of a constructor, or where it would stand. -/
def readParameters (header : Header) (keyword : Bool) (visibility : Visibility) (offset : Nat)
    (cs rest : List Char) : Header :=
  match rest, enclosed? '(' ')' rest with
  | '(' :: _, some (inside, left) =>
    { header with
      shape := .primary ⟨offset + byteLength cs - byteLength rest + 1, inside⟩ visibility }.readTail
        (offset + byteLength cs - byteLength left) left
  | '(' :: _, none => { header with shape := .unbalanced }
  | _, _ => if keyword then { header with shape := .unbalanced } else header.readTail offset cs

theorem readConstructor_eq : header.readConstructor offset cs =
    header.readParameters (constructorPrefix? cs).isSome
      ((constructorPrefix? cs).getD (.everywhere, cs)).1 offset cs
      ((constructorPrefix? cs).getD (.everywhere, cs)).2 := rfl

theorem readParameters_of_solid {keyword : Bool} {visibility : Visibility} {rest : List Char}
    (hrest : ∀ inner, rest ≠ '(' :: inner) :
    header.readParameters keyword visibility offset cs rest =
      if keyword then { header with shape := .unbalanced } else header.readTail offset cs := by
  unfold readParameters
  split
  · next inner _ _ _ => exact absurd rfl (hrest inner)
  · next inner _ => exact absurd rfl (hrest inner)
  · rfl

theorem body_readParameters_eq {keyword : Bool} {visibility : Visibility} {rest : List Char}
    (hbody : header.body = none) (hrest : keyword = false → rest = cs)
    (h : (header.readParameters keyword visibility offset cs rest).shape = .implicit) :
    (header.readParameters keyword visibility offset cs rest).body.map (·.text) =
      ((behindParameters? rest).map behindSupertypes).bind bodyText? := by
  by_cases hopen : ∃ inner, rest = '(' :: inner
  · obtain ⟨inner, rfl⟩ := hopen
    unfold readParameters at h
    cases hinside : enclosed? '(' ')' ('(' :: inner) with
    | none => simp [hinside] at h
    | some r => simp [hinside, shape_readTail] at h
  · have hsolid : ∀ inner, rest ≠ '(' :: inner := fun inner heq => hopen ⟨inner, heq⟩
    rw [readParameters_of_solid hsolid] at h ⊢
    cases keyword with
    | true => cases h
    | false =>
      rw [behindParameters?_of_solid hsolid, hrest rfl]
      exact body_readTail_eq hbody

theorem body_readConstructor_eq (hbody : header.body = none)
    (h : (header.readConstructor offset cs).shape = .implicit) :
    (header.readConstructor offset cs).body.map (·.text) =
      ((behindConstructor? cs).map behindSupertypes).bind bodyText? := by
  rw [readConstructor_eq] at h ⊢
  refine body_readParameters_eq hbody (fun hkeyword => ?_) h
  cases hread : constructorPrefix? cs with
  | none => rfl
  | some r => simp [hread] at hkeyword

theorem behindTypeParameters?_of_solid {rest : List Char} (htrim : trimStart cs = rest)
    (hrest : ∀ inner, rest ≠ '<' :: inner) : behindTypeParameters? cs = some rest := by
  unfold behindTypeParameters?
  rw [htrim]
  split
  · next inner => exact absurd rfl (hrest inner)
  · rfl

theorem read_of_noTypeParameters (offset : Nat) {rest : List Char} (htrim : trimStart cs = rest)
    (hrest : ∀ inner, rest ≠ '<' :: inner) : Header.read offset cs =
      ({} : Header).readConstructor (offset + byteLength cs - byteLength rest) rest := by
  unfold Header.read
  rw [htrim]
  dsimp only
  split
  · next inner _ _ _ => exact absurd rfl (hrest inner)
  · next inner _ => exact absurd rfl (hrest inner)
  · rfl

theorem behindTypeParameters?_of_angle {inner : List Char} (htrim : trimStart cs = '<' :: inner) :
    behindTypeParameters? cs =
      (enclosed? '<' '>' ('<' :: inner)).map fun r => trimStart r.2 := by
  unfold behindTypeParameters?
  rw [htrim]
  rfl

theorem read_of_typeParameters (offset : Nat) {inner : List Char}
    (htrim : trimStart cs = '<' :: inner) : Header.read offset cs =
      match enclosed? '<' '>' ('<' :: inner) with
      | some (inside, left) =>
        { typeParameters := typeParameterNames inside : Header }.readConstructor
          (offset + byteLength cs - byteLength (trimStart left)) (trimStart left)
      | none => { shape := .unbalanced } := by
  unfold Header.read
  rw [htrim]
  dsimp only
  cases enclosed? '<' '>' ('<' :: inner) <;> rfl

/-- The body of a class without a constructor starts where its header ends. -/
theorem body_read_eq (h : (Header.read offset cs).shape = .implicit) :
    (Header.read offset cs).body.map (·.text) = (behindHeader? cs).bind bodyText? := by
  unfold behindHeader?
  by_cases hopen : ∃ inner, trimStart cs = '<' :: inner
  · obtain ⟨inner, htrim⟩ := hopen
    rw [read_of_typeParameters offset htrim] at h ⊢
    rw [behindTypeParameters?_of_angle htrim]
    cases hinside : enclosed? '<' '>' ('<' :: inner) with
    | none => simp [hinside] at h
    | some r =>
      rw [hinside] at h
      exact body_readConstructor_eq rfl h
  · have hsolid : ∀ inner, trimStart cs ≠ '<' :: inner := fun inner heq => hopen ⟨inner, heq⟩
    rw [read_of_noTypeParameters offset rfl hsolid] at h ⊢
    rw [behindTypeParameters?_of_solid rfl hsolid]
    exact body_readConstructor_eq rfl h

end Header

/-! ## Delimiters in front of a text -/

section Closing

variable {openMark closeMark : Char}
  (hmarks : isQuote openMark = false ∧ isQuote closeMark = false ∧ openMark ≠ closeMark)

include hmarks

theorem closingFrom_append_iff {depth : Nat} {literal : LiteralState}
    {front rest before after : List Char} :
    closingFrom openMark closeMark depth literal (front ++ rest) = some (before, after ++ rest) ↔
      closingFrom openMark closeMark depth literal front = some (before, after) := by
  induction front generalizing depth literal before with
  | nil =>
    constructor
    · intro h
      have hlength := congrArg List.length (closingFrom_eq_some h)
      simp only [List.nil_append, List.length_append, List.length_cons] at hlength
      omega
    · intro h
      simp [closingFrom] at h
  | cons c front ih =>
    rw [List.cons_append, closingFrom_cons hmarks, closingFrom_cons hmarks]
    split_ifs
    · simp
    · simp only [Option.map_eq_some_iff, Prod.mk.injEq, Prod.exists]
      constructor
      · rintro ⟨before, _, h, rfl, rfl⟩
        exact ⟨before, after, ih.mp h, rfl, rfl⟩
      · rintro ⟨before, _, h, rfl, rfl⟩
        exact ⟨before, _, ih.mpr h, rfl, rfl⟩

theorem enclosed?_append_iff {front rest inside left : List Char} :
    enclosed? openMark closeMark (front ++ rest) = some (inside, left ++ rest) ↔
      enclosed? openMark closeMark front = some (inside, left) := by
  unfold enclosed?
  simp only [Option.map_eq_some_iff, Prod.mk.injEq, Prod.exists]
  constructor
  · rintro ⟨before, _, h, rfl, rfl⟩
    exact ⟨before, left, (closingFrom_append_iff hmarks).mp h, rfl, rfl⟩
  · rintro ⟨before, _, h, rfl, rfl⟩
    exact ⟨before, _, (closingFrom_append_iff hmarks).mpr h, rfl, rfl⟩

end Closing

/-! ## In front of a quote -/

section Quote

variable {quote : Char} (hquote : isQuote quote = true) {tail part left : List Char}

include hquote

theorem supertypeStretch_append_quote {s : SupertypeState} {taken : List Char}
    (h : supertypeStretch s (part ++ quote :: tail) = (taken, left ++ quote :: tail)) :
    supertypeStretch s part = (taken, left) := by
  induction part generalizing s taken with
  | nil =>
    have hends : s.endsBefore quote tail = false := by
      have hbrace : quote ≠ '{' := ne_of_isQuote hquote rfl
      have hbreak : quote ≠ '\n' := ne_of_isQuote hquote rfl
      simp [SupertypeState.endsBefore, hbrace, hbreak]
    rw [List.nil_append, supertypeStretch, hends, if_neg Bool.false_ne_true] at h
    have hlength := (supertypeStretch_suffix (s.step quote) tail).length_le
    rw [(Prod.mk.inj h).2] at hlength
    simp only [List.length_append, List.length_cons] at hlength
    omega
  | cons c part ih =>
    have hends : s.endsBefore c (part ++ quote :: tail) = s.endsBefore c part := by
      have hhead (d : Char) (hd : d ≠ quote) :
          ((trimStart (part ++ quote :: tail)).head? == some d) =
            ((trimStart part).head? == some d) := by
        rw [trimStart_append_quote hquote]
        cases trimStart part with
        | nil => simp [hd.symm]
        | cons => rfl
      unfold SupertypeState.endsBefore
      rw [hhead ',' (ne_of_isQuote hquote rfl).symm, hhead '{' (ne_of_isQuote hquote rfl).symm]
    rw [List.cons_append, supertypeStretch, hends] at h
    rw [supertypeStretch]
    split_ifs at h ⊢
    · obtain ⟨rfl, heq⟩ := Prod.mk.inj h
      rw [← List.cons_append] at heq
      rw [List.append_cancel_right heq]
    · obtain ⟨rfl, heq⟩ := Prod.mk.inj h
      rw [ih (Prod.ext rfl heq)]

/-- Supertypes that end in front of the quote. -/
theorem behindSupertypes_append_quote (header : Header)
    (h : behindSupertypes (part ++ quote :: tail) = left ++ quote :: tail) :
    behindSupertypes part = left ∧
      header.supertypesAt (part ++ quote :: tail) = header.supertypesAt part := by
  have hcolon : quote ≠ ':' := ne_of_isQuote hquote rfl
  unfold behindSupertypes Header.supertypesAt at *
  rw [trimStart_append_quote hquote] at h ⊢
  generalize trimStart part = rest at h ⊢
  cases rest with
  | nil => simp_all
  | cons c rest =>
    by_cases hc : c = ':'
    · subst hc
      simp only [List.cons_append] at h ⊢
      obtain ⟨between, hbetween⟩ :
          quote :: tail <:+ (supertypeStretch {} (rest ++ quote :: tail)).2 :=
        (List.suffix_append left _).trans (h ▸ trimStart_suffix _)
      have hstretch := supertypeStretch_append_quote hquote (Prod.ext rfl hbetween.symm)
      rw [← hbetween, trimStart_append_quote hquote] at h
      rw [hstretch]
      exact ⟨List.append_cancel_right h, rfl⟩
    · have heq : c :: rest ++ quote :: tail = left ++ quote :: tail := by simpa [hc] using h
      exact ⟨by simpa [hc] using List.append_cancel_right heq, by simp [hc]⟩

theorem front_readTail_append_quote (header : Header) (offset : Nat)
    (h : behindSupertypes (part ++ quote :: tail) = left ++ quote :: tail) :
    (header.readTail offset (part ++ quote :: tail)).front =
      (header.readTail offset part).front := by
  rw [Header.readTail_eq, Header.readTail_eq, Header.front_withBody, Header.front_withBody,
    (behindSupertypes_append_quote hquote header h).2]

omit hquote in
theorem behindParameters?_suffix {cs behind : List Char} (h : behindParameters? cs = some behind) :
    behind <:+ cs := by
  unfold behindParameters? at h
  split at h
  · next rest =>
    obtain ⟨r, hr, rfl⟩ := Option.map_eq_some_iff.mp h
    rw [enclosed?_eq_some (by decide) hr]
    exact (List.suffix_cons ')' _).trans ((List.suffix_append _ _).trans (List.suffix_cons '(' _))
  · cases h
    exact List.suffix_refl _

/-- A parameter list that ends in front of the quote. -/
theorem behindParameters?_append_quote
    (h : behindParameters? (part ++ quote :: tail) = some (left ++ quote :: tail)) :
    behindParameters? part = some left := by
  have hparen : quote ≠ '(' := ne_of_isQuote hquote rfl
  unfold behindParameters? at h ⊢
  cases part with
  | nil => simpa [hparen] using h
  | cons c rest =>
    by_cases hc : c = '('
    · subst hc
      obtain ⟨r, hr, hleft⟩ := Option.map_eq_some_iff.mp h
      have hread : r = (r.1, left ++ quote :: tail) := Prod.ext rfl hleft
      rw [hread] at hr
      exact Option.map_eq_some_iff.mpr
        ⟨(r.1, left), (enclosed?_append_iff (by decide)).mp hr, rfl⟩
    · have heq : c :: rest ++ quote :: tail = left ++ quote :: tail := by simpa [hc] using h
      simpa [hc] using List.append_cancel_right heq

theorem front_readParameters_append_quote (header : Header) {keyword : Bool}
    (visibility : Visibility) (offset : Nat) {front behind : List Char}
    (hfront : keyword = false → front = part)
    (h : behindParameters? (part ++ quote :: tail) = some (behind ++ quote :: tail))
    (htail : behindSupertypes (behind ++ quote :: tail) = left ++ quote :: tail) :
    (header.readParameters keyword visibility offset (front ++ quote :: tail)
        (part ++ quote :: tail)).front =
      (header.readParameters keyword visibility offset front part).front := by
  have hparen : quote ≠ '(' := ne_of_isQuote hquote rfl
  have hbehind := behindParameters?_append_quote hquote h
  have htails {header header' : Header} {offset offset' : Nat} (hheader : header = header')
      (hoffset : offset = offset') : (header.readTail offset (behind ++ quote :: tail)).front =
        (header'.readTail offset' behind).front := by
    rw [hheader, hoffset, front_readTail_append_quote hquote header' offset' htail]
  by_cases hopen : ∃ inner, part = '(' :: inner
  · obtain ⟨inner, rfl⟩ := hopen
    obtain ⟨r, hr, rfl⟩ := Option.map_eq_some_iff.mp hbehind
    have hwhole : enclosed? '(' ')' ('(' :: inner ++ quote :: tail) =
        some (r.1, r.2 ++ quote :: tail) := (enclosed?_append_iff (by decide)).mpr hr
    unfold Header.readParameters
    simp only [List.cons_append] at hwhole ⊢
    rw [hr, hwhole]
    refine htails ?_ ?_
    · simp only [byteLength_append, byteLength_cons]
      congr 3
      omega
    · simp only [byteLength_append]
      omega
  · have hsolid : ∀ inner, part ≠ '(' :: inner := fun inner heq => hopen ⟨inner, heq⟩
    have hsolid' : ∀ inner, part ++ quote :: tail ≠ '(' :: inner := by
      rintro inner heq
      cases part with
      | nil => exact hparen (List.cons.inj heq).1
      | cons c part => exact hopen ⟨part, by rw [(List.cons.inj heq).1]⟩
    rw [Header.readParameters_of_solid hsolid, Header.readParameters_of_solid hsolid']
    cases keyword with
    | true => rfl
    | false =>
      obtain rfl := hfront rfl
      rw [behindParameters?_of_solid hsolid] at hbehind
      obtain rfl := Option.some.inj hbehind
      exact htails rfl rfl

/-- The keyword of a constructor that ends in front of the quote. -/
theorem constructorPrefix?_eq_of_behind
    (h : behindConstructor? (part ++ quote :: tail) = some (left ++ quote :: tail)) :
    constructorPrefix? (part ++ quote :: tail) =
      (constructorPrefix? part).map fun r => (r.1, r.2 ++ quote :: tail) := by
  have hsuffix := behindParameters?_suffix h
  have hstop : StopsBefore (quote :: tail) constructorPrefix? :=
    stopsBefore_constructorPrefix? hquote
  cases hkeyword : constructorPrefix? (part ++ quote :: tail) with
  | some r =>
    rw [hkeyword] at hsuffix
    obtain ⟨between, hbetween⟩ := (List.suffix_append left (quote :: tail)).trans hsuffix
    have hread : r = (r.1, between ++ quote :: tail) := Prod.ext rfl hbetween.symm
    rw [(hstop part r.1 between).mp (by rw [hkeyword, ← hread]), hread]
    rfl
  | none =>
    rw [eq_none_of_stops (hstop part) hkeyword]
    rfl

/-- A constructor that ends in front of the quote. -/
theorem front_readConstructor_append_quote (header : Header) (offset : Nat) {behind : List Char}
    (h : behindConstructor? (part ++ quote :: tail) = some (behind ++ quote :: tail))
    (htail : behindSupertypes (behind ++ quote :: tail) = left ++ quote :: tail) :
    behindConstructor? part = some behind ∧
      (header.readConstructor offset (part ++ quote :: tail)).front =
        (header.readConstructor offset part).front := by
  have hkeyword := constructorPrefix?_eq_of_behind hquote h
  unfold behindConstructor? at h ⊢
  rw [Header.readConstructor_eq, Header.readConstructor_eq]
  rw [hkeyword] at h ⊢
  cases hpart : constructorPrefix? part with
  | none =>
    rw [hpart] at h
    exact ⟨behindParameters?_append_quote hquote h,
      front_readParameters_append_quote hquote header _ offset (fun _ => rfl) h htail⟩
  | some r =>
    rw [hpart] at h
    exact ⟨behindParameters?_append_quote hquote h,
      front_readParameters_append_quote hquote header _ offset (by simp) h htail⟩

omit hquote in
theorem behindSupertypes_suffix (cs : List Char) : behindSupertypes cs <:+ cs := by
  unfold behindSupertypes
  split
  · next rest heq =>
    calc trimStart (supertypeStretch {} rest).2
        <:+ (supertypeStretch {} rest).2 := trimStart_suffix _
      _ <:+ rest := supertypeStretch_suffix {} rest
      _ <:+ ':' :: rest := List.suffix_cons _ _
      _ <:+ cs := heq ▸ trimStart_suffix cs
  · exact trimStart_suffix cs

omit hquote in
theorem behindConstructor?_suffix {cs behind : List Char}
    (h : behindConstructor? cs = some behind) : behind <:+ cs := by
  refine (behindParameters?_suffix h).trans ?_
  cases hprefix : constructorPrefix? cs with
  | none => exact List.suffix_refl _
  | some r =>
    obtain ⟨visibility, rest⟩ := r
    obtain ⟨front, hfront, -⟩ := constructorPrefix?_eq_some hprefix
    exact ⟨front, hfront.symm⟩

/-- Type parameters that end in front of the quote. -/
theorem read_append_quote {behind : List Char}
    (h : behindTypeParameters? (part ++ quote :: tail) = some (behind ++ quote :: tail)) :
    behindTypeParameters? part = some behind ∧ ∃ header : Header, ∀ offset,
      ∃ place, Header.read offset (part ++ quote :: tail) =
          header.readConstructor place (behind ++ quote :: tail) ∧
        Header.read offset part = header.readConstructor place behind := by
  have hangle : quote ≠ '<' := ne_of_isQuote hquote rfl
  have htrim : trimStart (part ++ quote :: tail) = trimStart part ++ quote :: tail :=
    trimStart_append_quote hquote part
  have hplace (offset : Nat) : offset + byteLength (part ++ quote :: tail) -
      byteLength (behind ++ quote :: tail) = offset + byteLength part - byteLength behind := by
    simp only [byteLength_append]
    omega
  by_cases hopen : ∃ inner, trimStart part = '<' :: inner
  · obtain ⟨inner, hpart⟩ := hopen
    rw [hpart, List.cons_append] at htrim
    rw [Header.behindTypeParameters?_of_angle htrim] at h
    obtain ⟨r, hr, hleft⟩ := Option.map_eq_some_iff.mp h
    obtain ⟨between, hbetween⟩ := (List.suffix_append behind (quote :: tail)).trans
      (hleft ▸ trimStart_suffix r.2)
    have hread : r = (r.1, between ++ quote :: tail) := Prod.ext rfl hbetween.symm
    rw [hread] at hr
    have hinner : enclosed? '<' '>' ('<' :: inner) = some (r.1, between) :=
      (enclosed?_append_iff (by decide)).mp hr
    rw [← hbetween, trimStart_append_quote hquote] at hleft
    obtain rfl := List.append_cancel_right hleft
    refine ⟨?_, { typeParameters := typeParameterNames r.1 }, fun offset =>
      ⟨offset + byteLength part - byteLength (trimStart between), ?_, ?_⟩⟩
    · rw [Header.behindTypeParameters?_of_angle hpart, hinner]
      rfl
    · rw [Header.read_of_typeParameters offset htrim, hr, ← hplace]
      simp only [trimStart_append_quote hquote]
    · rw [Header.read_of_typeParameters offset hpart, hinner]
  · have hpart : ∀ inner, trimStart part ≠ '<' :: inner := fun inner heq => hopen ⟨inner, heq⟩
    have hsolid : ∀ inner, trimStart part ++ quote :: tail ≠ '<' :: inner := by
      intro inner heq
      cases hpart : trimStart part with
      | nil =>
        rw [hpart] at heq
        exact hangle (List.cons.inj heq).1
      | cons c rest =>
        rw [hpart] at heq
        exact hopen ⟨rest, by rw [hpart, (List.cons.inj heq).1]⟩
    rw [Header.behindTypeParameters?_of_solid htrim hsolid] at h
    obtain rfl := List.append_cancel_right (Option.some.inj h)
    refine ⟨?_, {}, fun offset =>
      ⟨offset + byteLength part - byteLength (trimStart part), ?_, ?_⟩⟩
    · exact Header.behindTypeParameters?_of_solid rfl hpart
    · rw [Header.read_of_noTypeParameters offset htrim hsolid, hplace]
    · exact Header.read_of_noTypeParameters offset rfl hpart

/-- A header that ends in front of the quote is read from the text in front. -/
theorem front_read_append_quote
    (h : behindHeader? (part ++ quote :: tail) = some (left ++ quote :: tail)) :
    behindHeader? part = some left ∧ ∀ offset,
      (Header.read offset (part ++ quote :: tail)).front = (Header.read offset part).front := by
  obtain ⟨first, hfirst, h⟩ := Option.bind_eq_some_iff.mp h
  obtain ⟨second, hsecond, hleft⟩ := Option.map_eq_some_iff.mp h
  have hlast : quote :: tail <:+ second :=
    (List.suffix_append left _).trans (hleft ▸ behindSupertypes_suffix second)
  obtain ⟨behind, rfl⟩ := hlast.trans (behindConstructor?_suffix hsecond)
  obtain ⟨named, rfl⟩ := hlast
  obtain ⟨hpart, header, hread⟩ := read_append_quote hquote hfirst
  refine ⟨?_, fun offset => ?_⟩
  · unfold behindHeader?
    rw [hpart, Option.bind_some,
      (front_readConstructor_append_quote hquote header 0 hsecond hleft).1, Option.map_some,
      (behindSupertypes_append_quote hquote header hleft).1]
  · obtain ⟨place, hwhole, hfront⟩ := hread offset
    rw [hwhole, hfront]
    exact (front_readConstructor_append_quote hquote header place hsecond hleft).2

end Quote

end ComponentWiring.Source
