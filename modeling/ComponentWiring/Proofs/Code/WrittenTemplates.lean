import ComponentWiring.Code.Template
import ComponentWiring.Proofs.Text.Pieces
import ComponentWiring.Proofs.Text.Words

/-!
Templates as they are written. `written` gives a template as a text with every block tag on a line
of its own, and the first two passes of the reader turn this text into tokens (`lexes_written`) and
take the tag lines out again (`dropsLineEnds`).

What is left are not quite the tokens that were written: texts that meet become one, and where a tag
takes its line with it an empty text may stay behind. So tokens are compared by `cut`, which forgets
how a text is divided: it gives the text in front of the first tag, and every tag with the text
behind it.
-/

namespace ComponentWiring

open Text

namespace Template

/-! ## Tags -/

/-- A path as it is written in a tag. -/
def pathText : List String → List Char
  | [] => "this".toList
  | names => ['.'].intercalate (names.map String.toList)

/-- A path of names that are words, of which the first one does not read as the value in focus. -/
def IsPlainPath (path : List String) : Prop :=
  (∀ name ∈ path, name ≠ "" ∧ ∀ c ∈ name.toList, isWordChar c = true) ∧ path.head? ≠ some "this"

instance (path : List String) : Decidable (IsPlainPath path) :=
  inferInstanceAs (Decidable (_ ∧ _))

theorem path?_pathText {path : List String} (h : IsPlainPath path) :
    path? (pathText path) = some path := by
  cases path with
  | nil => decide +kernel
  | cons first rest =>
    obtain ⟨hnames, hfirst⟩ := h
    have hdot : ∀ piece ∈ (first :: rest).map String.toList, '.' ∉ piece := by
      intro piece hpiece hmem
      obtain ⟨name, hname, rfl⟩ := List.mem_map.mp hpiece
      have hword : isWordChar '.' = false := by decide +kernel
      exact Bool.false_ne_true (hword.symm.trans ((hnames name hname).2 '.' hmem))
    have hpieces : (segments '.' (pathText (first :: rest))).map String.ofList = first :: rest := by
      change (segments '.' (['.'].intercalate ((first :: rest).map String.toList))).map _ = _
      rw [segments_intercalate (by simp) hdot, List.map_map]
      exact List.map_id'' (fun _ => String.ofList_toList) _
    have hall : (first :: rest).all
        (fun name => !name.isEmpty && name.toList.all isWordChar) = true := by
      simpa [List.all_eq_true] using hnames
    unfold path?
    simp only [hpieces, hall, if_true]
    split
    · next heq =>
      cases heq
      exact absurd rfl hfirst
    · rfl

theorem mem_pathText {path : List String} (h : IsPlainPath path) {c : Char}
    (hc : c ∈ pathText path) : isWordChar c = true ∨ c = '.' := by
  cases path with
  | nil =>
    have hthis : ∀ c ∈ "this".toList, isWordChar c = true := by decide +kernel
    exact .inl (hthis c hc)
  | cons first rest =>
    rcases mem_of_mem_intercalate hc with hc | ⟨piece, hpiece, hc⟩
    · exact .inr (by simpa using hc)
    · obtain ⟨name, hname, rfl⟩ := List.mem_map.mp hpiece
      exact .inl ((h.1 name hname).2 c hc)

theorem pathText_ne_nil {path : List String} (h : IsPlainPath path) : pathText path ≠ [] := by
  intro hnil
  have hread := path?_pathText h
  rw [hnil] at hread
  cases hread

/-- What a tag holds between its braces. -/
def Tag.inside : Tag → List Char
  | .name path => pathText path
  | .openIf path => "#if".toList ++ ' ' :: pathText path
  | .openEach path => "#each".toList ++ ' ' :: pathText path
  | .otherwise => "else".toList
  | .closeIf => "/if".toList
  | .closeEach => "/each".toList

/-- A tag that can be written with its path; the name `else` by itself is another tag. -/
def Tag.IsPlain : Tag → Prop
  | .name path => IsPlainPath path ∧ path ≠ ["else"]
  | .openIf path => IsPlainPath path
  | .openEach path => IsPlainPath path
  | _ => True

instance : (tag : Tag) → Decidable tag.IsPlain
  | .name path => inferInstanceAs (Decidable (IsPlainPath path ∧ _))
  | .openIf path => inferInstanceAs (Decidable (IsPlainPath path))
  | .openEach path => inferInstanceAs (Decidable (IsPlainPath path))
  | .otherwise => .isTrue trivial
  | .closeIf => .isTrue trivial
  | .closeEach => .isTrue trivial

theorem tag?_inside {tag : Tag} (h : tag.IsPlain) : tag? tag.inside = some tag := by
  have hblank {path : List String} (h : IsPlainPath path) :
      ∀ c ∈ pathText path, isBlank c = false := by
    intro c hc
    rcases mem_pathText h hc with hword | rfl
    · exact isBlank_of_isWordChar hword
    · rfl
  have hwords {path : List String} (h : IsPlainPath path) :
      Text.words (pathText path) = [pathText path] :=
    words_of_forall (pathText_ne_nil h) (hblank h)
  cases tag with
  | name path =>
    obtain ⟨hplain, helse⟩ := h
    have hread := path?_pathText hplain
    have hother {word : String} (hword : path? word.toList ≠ some path) :
        pathText path ≠ word.toList := by
      intro heq
      rw [heq] at hread
      exact hword hread
    have hotherwise : pathText path ≠ "else".toList := by
      refine hother ?_
      rw [show path? "else".toList = some ["else"] by decide +kernel]
      simpa using Ne.symm helse
    have hcloseIf : pathText path ≠ "/if".toList :=
      hother (by rw [show path? "/if".toList = none by decide +kernel]; simp)
    have hcloseEach : pathText path ≠ "/each".toList :=
      hother (by rw [show path? "/each".toList = none by decide +kernel]; simp)
    rw [tag?, Tag.inside, hwords hplain]
    simp only [hotherwise, hcloseIf, hcloseEach, if_false, hread, Option.map_some]
  | openIf path =>
    rw [tag?, Tag.inside, words_append_of_blank (by simp) (by decide) (by decide), hwords h]
    simp [path?_pathText h]
  | openEach path =>
    rw [tag?, Tag.inside, words_append_of_blank (by simp) (by decide) (by decide), hwords h]
    simp [path?_pathText h]
  | otherwise => decide +kernel
  | closeIf => decide +kernel
  | closeEach => decide +kernel

theorem brace_not_mem_inside {tag : Tag} (h : tag.IsPlain) : '\x7d' ∉ tag.inside := by
  have hpath {path : List String} (h : IsPlainPath path) : '\x7d' ∉ pathText path := by
    intro hmem
    have hword : isWordChar '\x7d' = false := by decide +kernel
    rcases mem_pathText h hmem with hc | hc
    · exact Bool.false_ne_true (hword.symm.trans hc)
    · cases hc
  cases tag with
  | name path => exact hpath h.1
  | openIf path => simpa [Tag.inside] using hpath h
  | openEach path => simpa [Tag.inside] using hpath h
  | otherwise => decide
  | closeIf => decide
  | closeEach => decide

/-! ## Templates as they are written -/

/-- A tag as it is written: a block tag with the end of its line. -/
def Tag.written (tag : Tag) : List Char :=
  '\x7b' :: '\x7b' :: (tag.inside ++ ('\x7d' :: '\x7d' :: if tag.isBlock then ['\n'] else []))

/-- A text or a tag as it is written. -/
def Token.written : Token → List Char
  | .text content => content
  | .tag inner => inner.written

mutual

/-- The tokens of a part. -/
def partTokens : TemplatePart → List Token
  | .text content => [.text content]
  | .name path => [.tag (.name path)]
  | .choice path yes no =>
    .tag (.openIf path) :: (tokensOf yes ++
      (if no.isEmpty then [.tag .closeIf]
      else .tag .otherwise :: (tokensOf no ++ [.tag .closeIf])))
  | .each path body => .tag (.openEach path) :: (tokensOf body ++ [.tag .closeEach])

/-- The tokens of a template. -/
def tokensOf : List TemplatePart → List Token
  | [] => []
  | part :: rest => partTokens part ++ tokensOf rest

end

/-- A template as it is written, with a line for every block tag. -/
def written (template : Template) : List Char :=
  (tokensOf template).flatMap Token.written

/-- Tokens as the text in front of the first tag, and the tags with the text behind each of them. -/
def cut : List Token → List Char × List (Tag × List Char)
  | [] => ([], [])
  | .text content :: rest => (content ++ (cut rest).1, (cut rest).2)
  | .tag tag :: rest => ([], (tag, (cut rest).1) :: (cut rest).2)

/-- A text that is not empty as a token. -/
def textToken (content : List Char) : List Token :=
  if content.isEmpty then [] else [.text content]

/-- Tags with the text behind each of them, as tokens. -/
def tagTokens (tags : List (Tag × List Char)) : List Token :=
  tags.flatMap fun (tag, after) => .tag tag :: textToken after

/-- The text behind a tag as it is written: a block tag stands at the end of its line. -/
def lineEnded (tags : List (Tag × List Char)) : List (Tag × List Char) :=
  tags.map fun (tag, after) => (tag, if tag.isBlock then '\n' :: after else after)

@[simp] theorem textToken_nil : textToken [] = [] := rfl

@[simp] theorem tagTokens_cons (tag : Tag) (after : List Char) (tags : List (Tag × List Char)) :
    tagTokens ((tag, after) :: tags) = .tag tag :: (textToken after ++ tagTokens tags) := rfl

@[simp] theorem lineEnded_cons (tag : Tag) (after : List Char) (tags : List (Tag × List Char)) :
    lineEnded ((tag, after) :: tags) =
      (tag, if tag.isBlock then '\n' :: after else after) :: lineEnded tags := rfl

/-! ## The first pass: tokens -/

/-- No brace in a text is followed by a brace, or by nothing. -/
def bracesApart : List Char → Bool
  | [] => true
  | c :: rest => (c != '\x7b' || rest.head?.any (· != '\x7b')) && bracesApart rest

/-- A text that is read as the given tokens. -/
def Lexes (cs : List Char) (tokens : List Token) : Prop :=
  ∀ fuel, cs.length ≤ fuel → tokens? fuel cs = some tokens

theorem Lexes.nil : Lexes [] [] := by
  intro fuel _
  cases fuel <;> rfl

theorem Lexes.cons {c : Char} {cs : List Char} {tokens : List Token} (h : Lexes cs tokens)
    (hc : c ≠ '\x7b' ∨ cs.head? ≠ some '\x7b') : Lexes (c :: cs) (consChar c tokens) := by
  intro fuel hfuel
  cases fuel with
  | zero => simp at hfuel
  | succ fuel =>
    rw [tokens?, h fuel (by simpa using hfuel)]
    · rfl
    · rintro rest rfl rfl
      simp at hc

theorem Lexes.tag {tag : Tag} {cs : List Char} {tokens : List Token} (h : Lexes cs tokens)
    (htag : tag.IsPlain) :
    Lexes ('\x7b' :: '\x7b' :: (tag.inside ++ ('\x7d' :: '\x7d' :: cs))) (.tag tag :: tokens) := by
  intro fuel hfuel
  cases fuel with
  | zero => simp at hfuel
  | succ fuel =>
    have hclose : untilClose? (tag.inside ++ ('\x7d' :: '\x7d' :: cs)) = some (tag.inside, cs) :=
      @splitAtText_append ['\x7d', '\x7d'] tag.inside (by simp)
        (by simpa using brace_not_mem_inside htag) cs
    have hrest : tokens? fuel cs = some tokens := by
      refine h fuel ?_
      simp only [List.length_cons, List.length_append] at hfuel
      omega
    rw [tokens?, hclose]
    simp only [tag?_inside htag, hrest]

theorem consChar_textToken (c : Char) (content : List Char) (tags : List (Tag × List Char)) :
    consChar c (textToken content ++ tagTokens tags) =
      textToken (c :: content) ++ tagTokens tags := by
  cases content with
  | nil => cases tags <;> rfl
  | cons d content => rfl

/-- A text in front of what is read becomes one with the text that comes first there. -/
theorem Lexes.text {content after cs : List Char} {tags : List (Tag × List Char)}
    (h : Lexes cs (textToken after ++ tagTokens tags)) (hcontent : bracesApart content = true) :
    Lexes (content ++ cs) (textToken (content ++ after) ++ tagTokens tags) := by
  induction content with
  | nil => exact h
  | cons c content ih =>
    rw [bracesApart, Bool.and_eq_true, Bool.or_eq_true, bne_iff_ne] at hcontent
    rw [List.cons_append, List.cons_append, ← consChar_textToken]
    refine (ih hcontent.2).cons (hcontent.1.imp_right fun hnext => ?_)
    cases content with
    | nil => simp at hnext
    | cons d content => simpa using hnext

/-- A text or a tag that can be read where it is written. -/
def Token.IsPlain : Token → Prop
  | .text content => bracesApart content = true
  | .tag inner => inner.IsPlain

instance : (token : Token) → Decidable token.IsPlain
  | .text content => inferInstanceAs (Decidable (bracesApart content = true))
  | .tag tag => inferInstanceAs (Decidable tag.IsPlain)

theorem lexes_written {tokens : List Token} (h : ∀ token ∈ tokens, token.IsPlain) :
    Lexes (tokens.flatMap Token.written)
      (textToken (cut tokens).1 ++ tagTokens (lineEnded (cut tokens).2)) := by
  induction tokens with
  | nil => exact .nil
  | cons token rest ih =>
    rw [List.forall_mem_cons] at h
    have hrest := ih h.2
    cases token with
    | text content => exact hrest.text h.1
    | tag tag =>
      cases hblock : tag.isBlock with
      | true =>
        have hline : Lexes ('\n' :: rest.flatMap Token.written)
            (textToken ('\n' :: (cut rest).1) ++ tagTokens (lineEnded (cut rest).2)) := by
          rw [← consChar_textToken]
          exact hrest.cons (.inl (by decide))
        simpa [Token.written, Tag.written, cut, hblock] using hline.tag h.1
      | false =>
        simpa [Token.written, Tag.written, cut, hblock] using hrest.tag h.1

/-! ## The second pass: lines with a block tag -/

/-- Whether every block tag stands at the start of a line. `atStart` says that the text in front of
the first tag starts a line. -/
def tagsLead : (atStart : Bool) → List Char → List (Tag × List Char) → Bool
  | _, _, [] => true
  | atStart, before, (tag, after) :: rest =>
    (!tag.isBlock || before.getLast? == some '\n' || (before.isEmpty && atStart)) &&
      tagsLead tag.isBlock after rest

theorem beforeAlone?_eq_self {atStart : Bool} {before : List Char}
    (h : before.getLast? = some '\n' ∨ before = [] ∧ atStart = true) :
    beforeAlone? atStart before = some before := by
  rcases h with h | ⟨rfl, rfl⟩
  · obtain ⟨front, rfl⟩ := List.getLast?_eq_some_iff.mp h
    simp [beforeAlone?, isLineBlank]
  · rfl

theorem afterAlone?_break (atEnd : Bool) (after : List Char) :
    afterAlone? atEnd ('\n' :: after) = some after := rfl

/-- A tag that belongs to no block stays, and so does the text in front of it. -/
theorem dropTagLines_name {tag : Tag} (htag : tag.isBlock = false) (fuel : Nat) (atStart : Bool)
    (before : List Char) (rest : List Token) :
    dropTagLines (fuel + 1) atStart (.text before :: .tag tag :: rest) =
      .text before :: .tag tag :: dropTagLines fuel false rest := by
  simp [dropTagLines, htag]

/-- A block tag that leads its line takes the end of the line with it. -/
theorem dropTagLines_block {tag : Tag} (htag : tag.isBlock = true) {atStart : Bool}
    {before : List Char} (hbefore : before.getLast? = some '\n' ∨ before = [] ∧ atStart = true)
    (fuel : Nat) (after : List Char) (rest : List Token) :
    dropTagLines (fuel + 1) atStart (.text before :: .tag tag :: .text ('\n' :: after) :: rest) =
      .text before :: .tag tag :: dropTagLines fuel true (.text after :: rest) := by
  simp [dropTagLines, htag, beforeAlone?_eq_self hbefore, afterAlone?_break]

/-- What is left of tokens as they are written has the given tags, with the same text in front of
the first of them and behind each of them: the line breaks behind the block tags are gone. The
tokens start with a text, which may be empty, or with a tag. -/
structure DropsLineEnds (tags : List (Tag × List Char)) : Prop where
  behindText : ∀ fuel atStart before, 2 * tags.length ≤ fuel → tagsLead atStart before tags = true →
    cut (dropTagLines fuel atStart (.text before :: tagTokens (lineEnded tags))) = (before, tags)
  atTag : ∀ fuel atStart, 2 * tags.length + 1 ≤ fuel → tagsLead atStart [] tags = true →
    cut (dropTagLines fuel atStart (tagTokens (lineEnded tags))) = ([], tags)

theorem DropsLineEnds.cut_eq {tags : List (Tag × List Char)} (h : DropsLineEnds tags) (fuel : Nat)
    (hfuel : 2 * tags.length + 1 ≤ fuel) {atStart : Bool} {before : List Char}
    (hlead : tagsLead atStart before tags = true) :
    cut (dropTagLines fuel atStart (textToken before ++ tagTokens (lineEnded tags))) =
      (before, tags) := by
  cases before with
  | nil => exact h.atTag fuel atStart hfuel hlead
  | cons c before => exact h.behindText fuel atStart (c :: before) (by omega) hlead

theorem dropsLineEnds (tags : List (Tag × List Char)) : DropsLineEnds tags := by
  induction tags with
  | nil =>
    refine ⟨fun fuel atStart before _ _ => ?_, fun fuel atStart _ _ => ?_⟩
    · cases fuel with
      | zero => simp [dropTagLines, cut, tagTokens, lineEnded]
      | succ fuel => cases fuel <;> simp [dropTagLines, cut, tagTokens, lineEnded]
    · cases fuel <;> simp [dropTagLines, cut, tagTokens, lineEnded]
  | cons first tags ih =>
    obtain ⟨tag, after⟩ := first
    have htext (fuel : Nat) (atStart : Bool) (before : List Char)
        (hfuel : 2 * (tags.length + 1) ≤ fuel)
        (hlead : tagsLead atStart before ((tag, after) :: tags) = true) :
        cut (dropTagLines fuel atStart
          (.text before :: tagTokens (lineEnded ((tag, after) :: tags)))) =
            (before, (tag, after) :: tags) := by
      obtain ⟨fuel, rfl⟩ := Nat.exists_eq_add_of_le' (show 1 ≤ fuel by omega)
      rw [tagsLead, Bool.and_eq_true] at hlead
      obtain ⟨hbefore, hlead⟩ := hlead
      cases hblock : tag.isBlock with
      | false =>
        rw [hblock] at hlead
        rw [lineEnded_cons, tagTokens_cons, hblock, if_neg Bool.false_ne_true,
          dropTagLines_name hblock]
        simp [cut, ih.cut_eq fuel (by omega) hlead]
      | true =>
        rw [hblock] at hlead hbefore
        have hbefore : before.getLast? = some '\n' ∨ before = [] ∧ atStart = true := by
          simpa using hbefore
        have htoken : textToken ('\n' :: after) = [.text ('\n' :: after)] := rfl
        rw [lineEnded_cons, tagTokens_cons, hblock, if_pos rfl, htoken, List.singleton_append,
          dropTagLines_block hblock hbefore]
        simp [cut, ih.behindText fuel true after (by omega) hlead]
    refine ⟨htext, fun fuel atStart hfuel hlead => ?_⟩
    rw [List.length_cons] at hfuel
    obtain ⟨fuel, rfl⟩ := Nat.exists_eq_add_of_le' (show 1 ≤ fuel by omega)
    cases hblock : tag.isBlock with
    | false =>
      have hlead : tagsLead false after tags = true := by
        simpa [tagsLead, hblock] using hlead
      simp [dropTagLines, hblock, cut, ih.cut_eq fuel (by omega) hlead]
    | true =>
      -- The tag stands at the start of the text: an empty text is put in front of it.
      have hstart : atStart = true := by
        have hfirst := (Bool.and_eq_true_iff.mp hlead).1
        simpa [hblock] using hfirst
      subst hstart
      have hempty := htext fuel true [] (by omega) hlead
      simp only [lineEnded_cons, tagTokens_cons, hblock] at hempty ⊢
      rw [dropTagLines, if_pos (by simp [hblock])]
      exact hempty

end Template

end ComponentWiring
