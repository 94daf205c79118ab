import ComponentWiring.Proofs.Code.WrittenTemplates

/-!
Templates that are written down and read back: what is read from the text of a template lays out
like the template itself, for every value (`read?_written`).

The last pass of the reader follows the blocks. `Reads` says what it finds, in terms of the text in
front of the first tag and of the tags with the text behind each of them, so that it does not matter
how a text is divided into tokens. The tokens of a template are read as this template
(`readAs_tokensOf`, by induction on the template), and the reader finds whatever the relation says
(`Reads.finds`, by induction on the relation).
-/

namespace ComponentWiring

namespace Template

/-! ## Templates that lay out alike -/

/-- Two templates that lay out alike. -/
def SameLayout (template template' : Template) : Prop :=
  ∀ value, lay value template = lay value template'

theorem lay_text_cons (value : Value) (content : List Char) (rest : Template) :
    lay value (.text content :: rest) = (lay value rest).map (content ++ ·) := by
  rw [lay, layPart]
  cases lay value rest <;> rfl

theorem lay_texts_append (value : Value) (front : List (List Char)) (rest : Template) :
    lay value (front.map .text ++ rest) = lay value (.text front.flatten :: rest) := by
  induction front with
  | nil => simp [lay_text_cons]
  | cons content front ih =>
    rw [List.map_cons, List.cons_append, lay_text_cons, ih, lay_text_cons, lay_text_cons]
    simp [Function.comp_def]

namespace SameLayout

variable {template template' template'' body body' no no' : Template} {part part' : TemplatePart}

theorem refl (template : Template) : SameLayout template template := fun _ => rfl

theorem trans (h : SameLayout template template') (h' : SameLayout template' template'') :
    SameLayout template template'' := fun value => (h value).trans (h' value)

theorem cons (hpart : ∀ value, layPart value part = layPart value part')
    (h : SameLayout template template') :
    SameLayout (part :: template) (part' :: template') := by
  intro value
  rw [lay, lay, hpart value, h value]

theorem nil_text (h : SameLayout template template') :
    SameLayout (.text [] :: template) template' := by
  intro value
  rw [lay_text_cons, h value]
  simp

theorem concat_text (template : Template) : SameLayout (template ++ [.text []]) template := by
  intro value
  induction template with
  | nil => rfl
  | cons part rest ih => rw [List.cons_append, lay, lay, ih]

theorem layPart_each (path : List String) (h : SameLayout body body') (value : Value) :
    layPart value (.each path body) = layPart value (.each path body') := by
  have hbody : (fun item => lay item body) = fun item => lay item body' := funext h
  rw [layPart, layPart, hbody]

theorem layPart_choice (path : List String) (hyes : SameLayout body body')
    (hno : SameLayout no no') (value : Value) :
    layPart value (.choice path body no) = layPart value (.choice path body' no') := by
  rw [layPart, layPart, hyes value, hno value]

end SameLayout

/-! ## Blocks -/

/-- Whether a tag ends the parts in front of it. -/
def Tag.endsParts : Tag → Bool
  | .otherwise => true
  | .closeIf => true
  | .closeEach => true
  | _ => false

/-- The parts up to the end of a block, read from the text in front of the first tag and the tags
with the text behind each of them; what ends the block, and what is left behind it. -/
inductive Reads : List Char × List (Tag × List Char) → Template → Ending →
    List Char × List (Tag × List Char) → Prop
  | done (before : List Char) : Reads (before, []) [.text before] .end ([], [])
  | ending (before after : List Char) (tags : List (Tag × List Char)) {tag : Tag}
      (ends : tag.endsParts = true) :
      Reads (before, (tag, after) :: tags) [.text before] (.tag tag) (after, tags)
  | name (before : List Char) (path : List String) {after : List Char}
      {tags : List (Tag × List Char)} {parts : Template} {ending : Ending}
      {left : List Char × List (Tag × List Char)} (rest : Reads (after, tags) parts ending left) :
      Reads (before, (.name path, after) :: tags) (.text before :: .name path :: parts) ending left
  | each (before : List Char) (path : List String) {after : List Char}
      {tags : List (Tag × List Char)} {body parts : Template} {ending : Ending}
      {behind left : List Char × List (Tag × List Char)}
      (inside : Reads (after, tags) body (.tag .closeEach) behind)
      (rest : Reads behind parts ending left) :
      Reads (before, (.openEach path, after) :: tags) (.text before :: .each path body :: parts)
        ending left
  | choice (before : List Char) (path : List String) {after : List Char}
      {tags : List (Tag × List Char)} {yes parts : Template} {ending : Ending}
      {behind left : List Char × List (Tag × List Char)}
      (inside : Reads (after, tags) yes (.tag .closeIf) behind)
      (rest : Reads behind parts ending left) :
      Reads (before, (.openIf path, after) :: tags) (.text before :: .choice path yes [] :: parts)
        ending left
  | choiceElse (before : List Char) (path : List String) {after : List Char}
      {tags : List (Tag × List Char)} {yes no parts : Template} {ending : Ending}
      {between behind left : List Char × List (Tag × List Char)}
      (inside : Reads (after, tags) yes (.tag .otherwise) between)
      (otherwise : Reads between no (.tag .closeIf) behind)
      (rest : Reads behind parts ending left) :
      Reads (before, (.openIf path, after) :: tags) (.text before :: .choice path yes no :: parts)
        ending left

section Blocks

variable {tokens rest : List Token} {template parts : Template} {ending : Ending}
  {before after content : List Char} {tags : List (Tag × List Char)}
  {left : List Char × List (Tag × List Char)}

theorem Reads.text (h : Reads (before, tags) parts ending left) (content : List Char) :
    ∃ parts', Reads (content ++ before, tags) parts' ending left ∧
      SameLayout parts' (.text content :: parts) := by
  have hsame (rest : Template) :
      SameLayout (.text (content ++ before) :: rest) (.text content :: .text before :: rest) := by
    intro value
    rw [lay_text_cons, lay_text_cons, lay_text_cons, Option.map_map]
    simp [Function.comp_def]
  cases h with
  | done => exact ⟨_, .done _, hsame _⟩
  | ending _ after tags ends => exact ⟨_, .ending _ after tags ends, hsame _⟩
  | name _ path rest => exact ⟨_, .name _ path rest, hsame _⟩
  | each _ path inside rest => exact ⟨_, .each _ path inside rest, hsame _⟩
  | choice _ path inside rest => exact ⟨_, .choice _ path inside rest, hsame _⟩
  | choiceElse _ path inside otherwise rest =>
    exact ⟨_, .choiceElse _ path inside otherwise rest, hsame _⟩

/-- Tokens that are read as a template, in front of what is read behind them. -/
def ReadAs (tokens : List Token) (template : Template) : Prop :=
  ∀ ⦃rest : List Token⦄ ⦃parts : Template⦄ ⦃ending : Ending⦄
    ⦃left : List Char × List (Tag × List Char)⦄, Reads (cut rest) parts ending left →
    ∃ parts', Reads (cut (tokens ++ rest)) parts' ending left ∧
      SameLayout parts' (template ++ parts)

/-- Up to the tag behind them, the tokens are read as the template alone. -/
theorem ReadAs.reads_block (h : ReadAs tokens template) (tag : Tag) (htag : tag.endsParts = true)
    (rest : List Token) :
    ∃ template', Reads (cut (tokens ++ .tag tag :: rest)) template' (.tag tag) (cut rest) ∧
      SameLayout template' template := by
  have hend : Reads (cut (.tag tag :: rest)) [.text []] (.tag tag) (cut rest) :=
    .ending [] _ _ htag
  obtain ⟨template', hreads, hsame⟩ := h hend
  exact ⟨template', hreads, hsame.trans (.concat_text template)⟩

mutual

/-- The tokens of a part are read as this part. -/
theorem readAs_partTokens : ∀ part : TemplatePart, ReadAs (partTokens part) [part]
  | .text content => fun _ _ _ _ h => h.text content
  | .name path => fun _ _ _ _ h => ⟨_, .name [] path h, .nil_text (.refl _)⟩
  | .each path body => by
    intro rest parts ending left h
    obtain ⟨body', hbody, hsame⟩ :=
      (readAs_tokensOf body).reads_block .closeEach rfl rest
    refine ⟨_, ?_, .nil_text (.cons (SameLayout.layPart_each path hsame) (.refl _))⟩
    rw [partTokens, List.cons_append, List.append_assoc]
    exact .each [] path hbody h
  | .choice path yes [] => by
    intro rest parts ending left h
    obtain ⟨yes', hyes, hsame⟩ := (readAs_tokensOf yes).reads_block .closeIf rfl rest
    refine ⟨_, ?_, .nil_text (.cons (SameLayout.layPart_choice path hsame (.refl [])) (.refl _))⟩
    rw [partTokens, List.cons_append, List.append_assoc]
    exact .choice [] path hyes h
  | .choice path yes (first :: others) => by
    intro rest parts ending left h
    obtain ⟨no', hno, hsameNo⟩ :=
      (readAs_tokensOf (first :: others)).reads_block .closeIf rfl rest
    obtain ⟨yes', hyes, hsame⟩ := (readAs_tokensOf yes).reads_block .otherwise rfl
      (tokensOf (first :: others) ++ .tag .closeIf :: rest)
    refine ⟨_, ?_, .nil_text (.cons (SameLayout.layPart_choice path hsame hsameNo) (.refl _))⟩
    rw [partTokens]
    simp only [List.isEmpty_cons, Bool.false_eq_true, if_false, List.cons_append,
      List.append_assoc, List.nil_append]
    exact .choiceElse [] path hyes hno h

/-- The tokens of a template are read as this template. -/
theorem readAs_tokensOf : ∀ template : List TemplatePart, ReadAs (tokensOf template) template
  | [] => fun _ parts _ _ h => ⟨parts, h, .refl _⟩
  | part :: template => by
    intro rest parts ending left h
    obtain ⟨parts', hparts, hsame⟩ := readAs_tokensOf template h
    obtain ⟨parts'', hparts', hsame'⟩ := readAs_partTokens part hparts
    refine ⟨parts'', ?_, hsame'.trans (.cons (fun _ => rfl) hsame)⟩
    rw [tokensOf, List.append_assoc]
    exact hparts'

end

/-- In front of the first tag there is nothing but texts. -/
theorem exists_texts_of_cut {tag : Tag} (h : cut tokens = (before, (tag, after) :: tags)) :
    ∃ (front : List (List Char)) (rest : List Token),
      tokens = front.map .text ++ .tag tag :: rest ∧ front.flatten = before ∧
        cut rest = (after, tags) := by
  induction tokens generalizing before with
  | nil => cases h
  | cons token tokens ih =>
    cases token with
    | text content =>
      rw [cut, Prod.mk.injEq] at h
      obtain ⟨front, rest, rfl, hfront, hrest⟩ := ih (Prod.ext rfl h.2)
      exact ⟨content :: front, rest, rfl, by rw [List.flatten_cons, hfront, h.1], hrest⟩
    | tag found =>
      rw [cut, Prod.mk.injEq, List.cons.injEq, Prod.mk.injEq] at h
      obtain ⟨rfl, ⟨rfl, hafter⟩, htags⟩ := h
      exact ⟨[], tokens, rfl, rfl, Prod.ext hafter htags⟩

theorem exists_texts_of_cut_nil (h : cut tokens = (before, [])) :
    ∃ front : List (List Char), tokens = front.map .text ∧ front.flatten = before := by
  induction tokens generalizing before with
  | nil =>
    cases h
    exact ⟨[], rfl, rfl⟩
  | cons token tokens ih =>
    cases token with
    | text content =>
      rw [cut, Prod.mk.injEq] at h
      obtain ⟨front, rfl, hfront⟩ := ih (Prod.ext rfl h.2)
      exact ⟨content :: front, rfl, by rw [List.flatten_cons, hfront, h.1]⟩
    | tag found => cases h

theorem partsUpTo_texts {front : List (List Char)} {fuel : Nat} {found : Template}
    {leftover : List Token} (h : partsUpTo fuel rest = some (found, ending, leftover)) :
    partsUpTo (front.length + fuel) (front.map .text ++ rest) =
      some (front.map .text ++ found, ending, leftover) := by
  induction front with
  | nil => simpa using h
  | cons content front ih =>
    rw [List.length_cons, Nat.add_right_comm, List.map_cons, List.cons_append, partsUpTo, ih]
    rfl

/-- With enough fuel, the reader of blocks finds what the relation says. -/
def Finds (tokens : List Token) (parts : Template) (ending : Ending)
    (left : List Char × List (Tag × List Char)) : Prop :=
  ∀ fuel, tokens.length < fuel → ∃ found leftover,
    partsUpTo fuel tokens = some (found, ending, leftover) ∧ cut leftover = left ∧
      leftover.length ≤ tokens.length ∧ SameLayout found parts

/-- Texts in front of what is found. -/
theorem Finds.texts (h : Finds rest parts ending left) (front : List (List Char)) :
    Finds (front.map .text ++ rest) (.text front.flatten :: parts) ending left := by
  intro fuel hfuel
  rw [List.length_append, List.length_map] at hfuel
  obtain ⟨fuel, rfl⟩ := Nat.exists_eq_add_of_le (show front.length ≤ fuel by omega)
  obtain ⟨found, leftover, hfound, hleft, hlength, hsame⟩ := h fuel (by omega)
  refine ⟨_, leftover, partsUpTo_texts hfound, hleft, ?_, fun value => ?_⟩
  · rw [List.length_append]
    omega
  · rw [lay_texts_append, lay_text_cons, lay_text_cons, hsame value]

/-- It is enough to look at the first tag. -/
theorem Finds.of_tag {tag : Tag} (hcut : cut tokens = (before, (tag, after) :: tags))
    (h : ∀ rest fuel, cut rest = (after, tags) → rest.length < fuel → ∃ found leftover,
      partsUpTo (fuel + 1) (.tag tag :: rest) = some (found, ending, leftover) ∧
        cut leftover = left ∧ leftover.length ≤ rest.length ∧ SameLayout found parts) :
    Finds tokens (.text before :: parts) ending left := by
  obtain ⟨front, rest, rfl, rfl, hrest⟩ := exists_texts_of_cut hcut
  refine Finds.texts (fun fuel hfuel => ?_) front
  rw [List.length_cons] at hfuel
  obtain ⟨fuel, rfl⟩ := Nat.exists_eq_add_of_le' (show 1 ≤ fuel by omega)
  obtain ⟨found, leftover, hfound, hleft, hlength, hsame⟩ := h rest fuel hrest (by omega)
  exact ⟨found, leftover, hfound, hleft, Nat.le_succ_of_le hlength, hsame⟩

/-- What the relation says is found, one case for each way in which the parts can go on. -/
theorem Reads.finds (h : Reads (cut tokens) parts ending left) :
    Finds tokens parts ending left := by
  generalize hcut : cut tokens = start at h
  induction h generalizing tokens with
  | done before =>
    obtain ⟨front, rfl, rfl⟩ := exists_texts_of_cut_nil hcut
    have hnil : Finds [] [] .end ([], []) := by
      intro fuel hfuel
      obtain ⟨fuel, rfl⟩ := Nat.exists_eq_add_of_le' (show 1 ≤ fuel from hfuel)
      exact ⟨[], [], rfl, rfl, Nat.le_refl _, .refl _⟩
    simpa using hnil.texts front
  | @ending before after tags tag ends =>
    refine Finds.of_tag hcut fun rest fuel hrest _ => ⟨[], rest, ?_, hrest, Nat.le_refl _, .refl _⟩
    cases tag with
    | name path => cases ends
    | openIf path => cases ends
    | openEach path => cases ends
    | otherwise => rfl
    | closeIf => rfl
    | closeEach => rfl
  | name before path _ ih =>
    refine Finds.of_tag hcut fun rest fuel hrest hfuel => ?_
    obtain ⟨found, leftover, hfound, hleft, hlength, hsame⟩ := ih hrest fuel hfuel
    refine ⟨.name path :: found, leftover, ?_, hleft, hlength, .cons (fun _ => rfl) hsame⟩
    simp [partsUpTo, hfound]
  | each before path _ _ ihinside ih =>
    refine Finds.of_tag hcut fun rest fuel hrest hfuel => ?_
    obtain ⟨body, behind, hbody, hbehind, hlength, hsame⟩ := ihinside hrest fuel hfuel
    obtain ⟨found, leftover, hfound, hleft, hlength', hsame'⟩ := ih hbehind fuel (by omega)
    refine ⟨.each path body :: found, leftover, ?_, hleft, by omega,
      .cons (SameLayout.layPart_each path hsame) hsame'⟩
    simp [partsUpTo, hbody, hfound]
  | choice before path _ _ ihinside ih =>
    refine Finds.of_tag hcut fun rest fuel hrest hfuel => ?_
    obtain ⟨yes, behind, hyes, hbehind, hlength, hsame⟩ := ihinside hrest fuel hfuel
    obtain ⟨found, leftover, hfound, hleft, hlength', hsame'⟩ := ih hbehind fuel (by omega)
    refine ⟨.choice path yes [] :: found, leftover, ?_, hleft, by omega,
      .cons (SameLayout.layPart_choice path hsame (.refl [])) hsame'⟩
    simp [partsUpTo, hyes, hfound]
  | choiceElse before path _ _ _ ihinside ihotherwise ih =>
    refine Finds.of_tag hcut fun rest fuel hrest hfuel => ?_
    obtain ⟨yes, between, hyes, hbetween, hlength, hsame⟩ := ihinside hrest fuel hfuel
    obtain ⟨no, behind, hno, hbehind, hlength', hsame'⟩ := ihotherwise hbetween fuel (by omega)
    obtain ⟨found, leftover, hfound, hleft, hlength'', hsame''⟩ := ih hbehind fuel (by omega)
    refine ⟨.choice path yes no :: found, leftover, ?_, hleft, by omega,
      .cons (SameLayout.layPart_choice path hsame hsame') hsame''⟩
    simp [partsUpTo, hyes, hno, hfound]

end Blocks

/-! ## Reading back -/

/-- A template that can be written down: what stands in it is read as what it is, and every block
tag comes at the start of a line. -/
structure IsPlain (template : Template) : Prop where
  tokens : ∀ token ∈ tokensOf template, token.IsPlain
  leads : tagsLead true (cut (tokensOf template)).1 (cut (tokensOf template)).2 = true

theorem isPlain_iff {template : Template} : IsPlain template ↔
    (∀ token ∈ tokensOf template, token.IsPlain) ∧
      tagsLead true (cut (tokensOf template)).1 (cut (tokensOf template)).2 = true :=
  ⟨fun h => ⟨h.tokens, h.leads⟩, fun h => ⟨h.1, h.2⟩⟩

instance (template : Template) : Decidable (IsPlain template) :=
  decidable_of_iff _ isPlain_iff.symm

theorem length_le_tagTokens (tags : List (Tag × List Char)) :
    tags.length ≤ (tagTokens (lineEnded tags)).length := by
  induction tags with
  | nil => exact Nat.zero_le _
  | cons first tags ih =>
    rw [lineEnded_cons, tagTokens_cons, List.length_cons, List.length_cons, List.length_append]
    omega

/-- A template that is written down is read back, up to how its texts are divided. -/
theorem read?_written {template : Template} (h : IsPlain template) :
    ∃ found, read? (written template) = some found ∧ SameLayout found template := by
  obtain ⟨hplain, hleads⟩ := h
  have hlex := lexes_written hplain _ (Nat.le_refl _)
  generalize hread : textToken (cut (tokensOf template)).1 ++
    tagTokens (lineEnded (cut (tokensOf template)).2) = read at hlex
  have hdrop : cut (dropTagLines (2 * read.length + 1) true read) = cut (tokensOf template) := by
    have hlength := length_le_tagTokens (cut (tokensOf template)).2
    subst hread
    exact (dropsLineEnds _).cut_eq _ (by rw [List.length_append]; omega) hleads
  have hend : Reads (cut []) [.text []] .end ([], []) := .done []
  obtain ⟨parts, hreads, hsame⟩ := readAs_tokensOf template hend
  rw [List.append_nil, ← hdrop] at hreads
  obtain ⟨found, leftover, hfound, -, -, hsame'⟩ := hreads.finds _ (Nat.lt_succ_self _)
  refine ⟨found, ?_, (hsame'.trans hsame).trans (.concat_text template)⟩
  rw [written, read?, hlex]
  simp [hfound]

end Template

end ComponentWiring
