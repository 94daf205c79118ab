import ComponentWiring.Proofs.Source.Annotations
import ComponentWiring.Proofs.Source.Modifiers
import ComponentWiring.Source.Header

/-!
What the header of a class can be, whatever follows its name. Each of the three readers has one law
that says everything it does (`Header.readTail_cases`, `Header.readConstructor_cases` and
`Header.read_cases`); from these it follows where constructor and body stand (`Header.placed_read`).
-/

namespace ComponentWiring.Source

open Text

/-! ## Texts between delimiters -/

section Enclosed

variable {openMark closeMark : Char} {cs rest inside left : List Char}

/-- Nothing is lost around delimiters. -/
theorem enclosed?_eq_some (hne : openMark ≠ closeMark)
    (h : enclosed? openMark closeMark (openMark :: rest) = some (inside, left)) :
    rest = inside ++ closeMark :: left := by
  obtain ⟨⟨before, after⟩, hclosing, heq⟩ := Option.map_eq_some_iff.mp h
  have htext := closingFrom_eq_some hclosing
  cases heq
  cases before with
  | nil => exact absurd (List.cons.inj htext).1 hne
  | cons c before => exact (List.cons.inj htext).2

end Enclosed

/-! ## What the parts of a header leave -/

theorem supertypeStretch_suffix (s : SupertypeState) (cs : List Char) :
    (supertypeStretch s cs).2 <:+ cs := by
  induction cs generalizing s with
  | nil => exact List.suffix_refl []
  | cons c rest ih =>
    rw [supertypeStretch]
    split
    · exact List.suffix_refl _
    · exact (ih _).trans (List.suffix_cons c rest)

/-- The keyword of a constructor ends in a letter or in blanks. -/
theorem constructorPrefix?_eq_some {cs : List Char} {visibility : Visibility} {rest : List Char}
    (h : constructorPrefix? cs = some (visibility, rest)) :
    ∃ front, cs = front ++ rest ∧ front.getLast? ≠ some '>' := by
  simp only [constructorPrefix?] at h
  obtain ⟨left, hleft, heq⟩ := Option.map_eq_some_iff.mp h
  obtain rfl : trimStart left = rest := (Prod.mk.inj heq).2
  have hsuffix : "constructor".toList ++ left <:+ cs := by
    rw [← dropText?_eq_some.mp hleft]
    refine List.IsSuffix.trans ?_ (annotations_suffix cs)
    split
    · next hword => exact suffix_of_wordOf? hword
    · exact List.suffix_refl _
  obtain ⟨before, hbefore⟩ := hsuffix
  refine ⟨before ++ ("constructor".toList ++ left.takeWhile isBlank), ?_, fun hlast => ?_⟩
  · rw [← hbefore, List.append_assoc, List.append_assoc, trimStart, List.takeWhile_append_dropWhile]
  · rw [List.getLast?_append_of_ne_nil _ (by simp)] at hlast
    cases hblank : left.takeWhile isBlank with
    | nil => simp [hblank] at hlast
    | cons c blank =>
      rw [List.getLast?_append_of_ne_nil _ (by simp [hblank])] at hlast
      have hgt := List.mem_takeWhile_imp (List.mem_of_getLast? hlast)
      exact absurd hgt (by decide)

/-! ## The three readers -/

namespace Header

/-- Supertypes are added, and a body if a brace follows that is closed. -/
theorem readTail_cases (header : Header) (offset : Nat) (cs : List Char) :
    ∃ names, header.readTail offset cs = { header with supertypes := names } ∨
      ∃ front rest inside left, cs = front ++ '{' :: rest ∧
        enclosed? '{' '}' ('{' :: rest) = some (inside, left) ∧
        header.readTail offset cs = { header with
          supertypes := names, body := some ⟨offset + byteLength front + 1, inside⟩ } := by
  have hbody {cs' inner inside left : List Char} (hsuffix : cs' <:+ cs) (hbrace : cs' = '{' :: inner)
      (hinside : enclosed? '{' '}' cs' = some (inside, left)) : ∃ front,
      cs = front ++ '{' :: inner ∧ enclosed? '{' '}' ('{' :: inner) = some (inside, left) ∧
        offset + byteLength cs - byteLength cs' = offset + byteLength front := by
    obtain ⟨front, rfl⟩ := hsuffix
    refine ⟨front, by rw [hbrace], hbrace ▸ hinside, ?_⟩
    rw [byteLength_append, ← Nat.add_assoc, Nat.add_sub_cancel]
  have htrim := trimStart_suffix cs
  unfold readTail
  dsimp only
  split
  · next rest heq =>
    rw [heq] at htrim
    have hleft := (trimStart_suffix (supertypeStretch {} rest).2).trans
      ((supertypeStretch_suffix {} rest).trans ((List.suffix_cons ':' rest).trans htrim))
    refine ⟨supertypeNames (supertypeStretch {} rest).1, ?_⟩
    split
    · next inner inside left hbrace hinside =>
      obtain ⟨front, hcs, hinside, hoffset⟩ := hbody hleft hbrace hinside
      exact .inr ⟨front, inner, inside, left, hcs, hinside, by rw [hoffset]⟩
    · exact .inl rfl
  · refine ⟨header.supertypes, ?_⟩
    split
    · next inner inside left hbrace hinside =>
      obtain ⟨front, hcs, hinside, hoffset⟩ := hbody htrim hbrace hinside
      exact .inr ⟨front, inner, inside, left, hcs, hinside, by rw [hoffset]⟩
    · exact .inl rfl

/-- A constructor is read if a parenthesis follows that is closed, at once or behind the keyword;
otherwise there is none, or an unbalanced one behind which nothing is read. -/
theorem readConstructor_cases (header : Header) (offset : Nat) (cs : List Char) :
    (∃ front rest inside left visibility, cs = front ++ '(' :: rest ∧
      front.getLast? ≠ some '>' ∧ enclosed? '(' ')' ('(' :: rest) = some (inside, left) ∧
      header.readConstructor offset cs =
        { header with shape := .primary ⟨offset + byteLength front + 1, inside⟩ visibility }.readTail
          (offset + byteLength front + byteLength inside + 2) left) ∨
    header.readConstructor offset cs = { header with shape := .unbalanced } ∨
    header.readConstructor offset cs = header.readTail offset cs := by
  have hrest : ∃ front, cs = front ++ ((constructorPrefix? cs).getD (.everywhere, cs)).2 ∧
      front.getLast? ≠ some '>' := by
    cases hprefix : constructorPrefix? cs with
    | none => exact ⟨[], rfl, by simp⟩
    | some r => exact constructorPrefix?_eq_some hprefix
  unfold readConstructor
  dsimp only
  generalize (constructorPrefix? cs).getD (.everywhere, cs) = r at hrest ⊢
  obtain ⟨visibility, behind⟩ := r
  obtain ⟨front, rfl, hlast⟩ := hrest
  dsimp only
  split
  · next rest inside left hcut =>
    refine .inl ⟨front, rest, inside, left, visibility, rfl, hlast, hcut, ?_⟩
    have hinside := enclosed?_eq_some (by decide) hcut
    have hopen : '('.utf8Size = 1 := rfl
    have hclose : ')'.utf8Size = 1 := rfl
    subst hinside
    simp only [byteLength_append, byteLength_cons, hopen, hclose]
    congr 4 <;> omega
  · exact .inr (.inl rfl)
  · split_ifs
    · exact .inr (.inl rfl)
    · exact .inr (.inr rfl)

/-- Type parameters are passed over, unless they are not closed. -/
theorem read_cases (offset : Nat) (cs : List Char) :
    (∃ front left names, cs = front ++ left ∧ Header.read offset cs =
      ({ typeParameters := names } : Header).readConstructor (offset + byteLength front) left) ∨
    Header.read offset cs = { shape := .unbalanced } := by
  obtain ⟨front, hfront⟩ := trimStart_suffix cs
  have hplace : ∀ more left, more ++ left = trimStart cs →
      offset + byteLength cs - byteLength left = offset + byteLength (front ++ more) := by
    intro more left hmore
    rw [← hfront, ← hmore]
    simp only [byteLength_append]
    omega
  unfold read
  dsimp only
  split
  · next rest inside left heq hcut =>
    have hinside := enclosed?_eq_some (by decide) (heq ▸ hcut)
    obtain ⟨blank, hblank⟩ := trimStart_suffix left
    have hmore : ('<' :: (inside ++ '>' :: blank)) ++ trimStart left = trimStart cs := by
      rw [heq, hinside]
      simp [hblank]
    refine .inl ⟨front ++ ('<' :: (inside ++ '>' :: blank)), trimStart left,
      typeParameterNames inside, ?_, ?_⟩
    · rw [List.append_assoc, hmore, hfront]
    · rw [hplace _ _ hmore]
  · exact .inr rfl
  · refine .inl ⟨front, trimStart cs, [], hfront.symm, ?_⟩
    have hzero := hplace [] (trimStart cs) rfl
    rw [List.append_nil] at hzero
    rw [hzero]

end Header

/-! ## Where constructor and body stand -/

/-- A stretch that stands between delimiters in a text that starts at `offset`. -/
def Stretch.Stands (openMark closeMark : Char) (offset : Nat) (cs : List Char) (s : Stretch) :
    Prop :=
  ∃ front rest left, cs = front ++ openMark :: rest ∧
    enclosed? openMark closeMark (openMark :: rest) = some (s.text, left) ∧
    s.start = offset + byteLength front + 1

theorem Stretch.Stands.append {openMark closeMark : Char} {offset : Nat} {cs : List Char}
    {s : Stretch} (before : List Char)
    (h : s.Stands openMark closeMark (offset + byteLength before) cs) :
    s.Stands openMark closeMark offset (before ++ cs) := by
  obtain ⟨front, rest, left, rfl, hcut, hstart⟩ := h
  refine ⟨before ++ front, rest, left, (List.append_assoc _ _ _).symm, hcut, ?_⟩
  rw [hstart, byteLength_append, Nat.add_assoc offset]

/-- Constructor and body stand behind the name of the class, the body behind the constructor. -/
structure Header.Placed (offset : Nat) (cs : List Char) (header : Header) : Prop where
  constructor : ∀ inside visibility, header.shape = .primary inside visibility →
    inside.Stands '(' ')' offset cs
  body : ∀ body ∈ header.body, body.Stands '{' '}' offset cs
  apart : ∀ inside visibility, header.shape = .primary inside visibility →
    ∀ body ∈ header.body, inside.stop < body.start

namespace Header

variable {header : Header} {offset : Nat} {cs : List Char}

theorem shape_readTail (header : Header) (offset : Nat) (cs : List Char) :
    (header.readTail offset cs).shape = header.shape := by
  obtain ⟨names, h | ⟨front, rest, inside, left, -, -, h⟩⟩ := header.readTail_cases offset cs <;>
    rw [h]

theorem body_readTail (header : Header) (offset : Nat) (cs : List Char)
    (hheader : header.body = none) :
    ∀ body ∈ (header.readTail offset cs).body, body.Stands '{' '}' offset cs := by
  obtain ⟨names, h | ⟨front, rest, inside, left, hcs, hcut, h⟩⟩ := header.readTail_cases offset cs
  · simp [h, hheader]
  · rw [h]
    rintro body ⟨rfl⟩
    exact ⟨front, rest, left, hcs, hcut, rfl⟩

theorem placed_readConstructor (header : Header) (offset : Nat) (cs : List Char)
    (hshape : header.shape = .implicit) (hbody : header.body = none) :
    (header.readConstructor offset cs).Placed offset cs := by
  rcases header.readConstructor_cases offset cs with
    ⟨front, rest, inside, left, visibility, rfl, -, hcut, h⟩ | h | h
  · have htext := enclosed?_eq_some (by decide) hcut
    have hleft := body_readTail { header with
        shape := .primary ⟨offset + byteLength front + 1, inside⟩ visibility }
      (offset + byteLength front + byteLength inside + 2) left hbody
    rw [h]
    refine ⟨fun inside' visibility' heq => ?_, fun body hmem => ?_,
      fun inside' visibility' heq body hmem => ?_⟩
    · rw [shape_readTail] at heq
      cases heq
      exact ⟨front, rest, left, rfl, hcut, rfl⟩
    · have hbefore : front ++ '(' :: rest = (front ++ '(' :: (inside ++ [')'])) ++ left := by
        rw [htext]
        simp
      rw [hbefore]
      refine Stretch.Stands.append _ ?_
      have hplace : offset + byteLength front + byteLength inside + 2 =
          offset + byteLength (front ++ '(' :: (inside ++ [')'])) := by
        have hopen : '('.utf8Size = 1 := rfl
        have hclose : ')'.utf8Size = 1 := rfl
        simp only [byteLength_append, byteLength_cons, byteLength_nil, hopen, hclose]
        omega
      rw [← hplace]
      exact hleft body hmem
    · rw [shape_readTail] at heq
      cases heq
      obtain ⟨front', _, _, -, -, hstart⟩ := hleft body hmem
      show offset + byteLength front + 1 + byteLength inside < body.start
      omega
  · rw [h]
    exact ⟨by simp, by simp [hbody], by simp⟩
  · rw [h]
    exact ⟨by simp [shape_readTail, hshape], body_readTail _ _ _ hbody,
      by simp [shape_readTail, hshape]⟩

theorem placed_read (offset : Nat) (cs : List Char) : (Header.read offset cs).Placed offset cs := by
  rcases read_cases offset cs with ⟨front, left, names, rfl, h⟩ | h
  · obtain ⟨hconstructor, hbody, hapart⟩ := placed_readConstructor
      { typeParameters := names } (offset + byteLength front) left rfl rfl
    rw [h]
    exact ⟨fun inside visibility heq => (hconstructor inside visibility heq).append front,
      fun body hmem => (hbody body hmem).append front, hapart⟩
  · rw [h]
    exact ⟨by simp, by simp, by simp⟩

end Header

end ComponentWiring.Source
