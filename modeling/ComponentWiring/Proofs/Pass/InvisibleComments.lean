import ComponentWiring.Pass.Generation
import ComponentWiring.Proofs.Pass.WrittenClasses
import ComponentWiring.Proofs.Source.Expressions
import ComponentWiring.Proofs.Source.Openings

/-!
Comments are invisible. Blanking them out keeps every byte at its place (`blanked_mask`) and leaves
a text in which no comment starts (`codeAvoids_mask`), so that a second time it changes nothing. All
that is read from a text is read where its comments are blanked out, and so is the same for both
texts (`blankComments_invisible`); and a place behind blanked comments has the line that it has in
the text itself.
-/

namespace ComponentWiring.Source

open Text

/-! ## Layout -/

/-- A text beside what is written for it: a character is kept, or its blanks stand for it. -/
inductive Blanked : List Char → List Char → Prop
  | nil : Blanked [] []
  | kept (c : Char) {cs masked : List Char} (h : Blanked cs masked) :
      Blanked (c :: cs) (c :: masked)
  | blanked (c : Char) {cs masked : List Char} (h : Blanked cs masked) :
      Blanked (c :: cs) (blankFor c ++ masked)

namespace CommentState

/-- Where a place stands with respect to literals; no literal reaches into a comment. -/
def literal : CommentState → LiteralState
  | source literal => literal
  | _ => .code

theorem literal_eq_code {state : CommentState}
    (h : ∀ literal, state = source literal → literal = .code) :
    state.literal = .code := by
  cases state with
  | source literal => exact h literal rfl
  | line => rfl
  | opening => rfl
  | block star => rfl

/-- A character is kept where it opens no comment, and blanked otherwise; no literal is open behind
a blanked character. -/
theorem step_cases_literal (state : CommentState) (c : Char) (next : Option Char) :
    (∃ literal, state = source literal ∧ (literal = .code → opensComment c next = false) ∧
      state.step c next = ([c], source (literal.step c))) ∨
    (state.literal = .code ∧ (state.step c next).1 = blankFor c ∧
      (state.step c next).2.literal = .code) := by
  rcases step_cases state c next with ⟨literal, hstate, hopens, hstep⟩ | ⟨hcode, hblank, hends⟩
  · refine .inl ⟨literal, hstate, fun hliteral => ?_, hstep⟩
    by_cases hc : c = '/'
    · simp [opensComment, hopens hliteral hc]
    · simp [opensComment, hc]
  · exact .inr ⟨literal_eq_code hcode, hblank, literal_eq_code fun literal h => (hends literal h).1⟩

theorem blanked_mask (state : CommentState) (cs : List Char) : Blanked cs (state.mask cs) := by
  induction cs generalizing state with
  | nil => exact .nil
  | cons c rest ih =>
    rcases state.step_cases_literal c rest.head? with ⟨literal, rfl, -, hstep⟩ | ⟨-, hwritten, -⟩
    · rw [mask, hstep]
      exact .kept c (ih _)
    · simp only [mask, hwritten]
      exact .blanked c (ih _)

end CommentState

theorem blanked_blankComments (cs : List Char) : Blanked cs (blankComments cs) :=
  CommentState.blanked_mask (.source .code) cs

/-! ## Bytes -/

/-- The bytes of a text in UTF-8. -/
def utf8Bytes (cs : List Char) : List UInt8 :=
  (String.ofList cs).toUTF8.data.toList

theorem utf8Bytes_eq_flatMap (cs : List Char) :
    utf8Bytes cs = cs.flatMap String.utf8EncodeChar := by
  simp [utf8Bytes, List.utf8Encode, List.data_toByteArray]

theorem length_utf8Bytes (cs : List Char) : (utf8Bytes cs).length = byteLength cs := by
  rw [utf8Bytes_eq_flatMap]
  induction cs with
  | nil => rfl
  | cons c rest ih =>
    rw [List.flatMap_cons, List.length_append, String.length_utf8EncodeChar, ih, byteLength_cons]

/-- The byte of a line break. -/
def breakByte : UInt8 := 0x0A

/-- The byte of a space. -/
def spaceByte : UInt8 := 0x20

/-- Only a line break holds the byte of a line break: the other bytes of a character that takes
several of them are large. -/
theorem eq_of_breakByte_mem {c : Char} (h : breakByte ∈ String.utf8EncodeChar c) : c = '\n' := by
  have hvalue : c.val.toNat = 10 := by
    have hcode : c.val.toNat = c.toNat := rfl
    simp only [String.utf8EncodeChar, breakByte] at h
    split_ifs at h <;>
      simp only [List.mem_cons, List.not_mem_nil, or_false, ← UInt8.toNat_inj,
        UInt8.toNat_ofNat'] at h <;> simp at h <;> omega
  exact Char.ext (UInt32.toNat_inj.mp hvalue)

/-- A byte and the byte that stands for it: the same one or a space, and a line break only for a
line break. -/
structure Shows (b m : UInt8) : Prop where
  keptOrSpace : m = b ∨ m = spaceByte
  breaks : m = breakByte ↔ b = breakByte

theorem Shows.refl (b : UInt8) : Shows b b := ⟨.inl rfl, Iff.rfl⟩

/-- The blanks of a character stand for its bytes. -/
theorem forall₂_utf8Bytes_blankFor (c : Char) :
    List.Forall₂ Shows (String.utf8EncodeChar c) (utf8Bytes (blankFor c)) := by
  unfold blankFor
  split
  · next hbreak =>
    subst hbreak
    exact .cons (.refl breakByte) .nil
  · next hbreak =>
    have hspaces : utf8Bytes (List.replicate c.utf8Size ' ') =
        List.replicate (String.utf8EncodeChar c).length spaceByte := by
      rw [utf8Bytes_eq_flatMap, List.flatMap_replicate, String.length_utf8EncodeChar]
      exact List.flatten_replicate_singleton
    rw [hspaces]
    refine List.forall₂_iff_get.mpr ⟨by simp, fun i hb hm => ?_⟩
    rw [List.get_eq_getElem, List.get_eq_getElem, List.getElem_replicate]
    refine ⟨.inr rfl, iff_of_false (by decide) fun heq => hbreak ?_⟩
    exact eq_of_breakByte_mem (heq ▸ List.getElem_mem hb)

namespace Blanked

variable {cs masked : List Char}

/-- Byte by byte, what is written shows the text. -/
theorem forall₂_utf8Bytes (h : Blanked cs masked) :
    List.Forall₂ Shows (utf8Bytes cs) (utf8Bytes masked) := by
  induction h with
  | nil => exact .nil
  | kept c _ ih =>
    simp only [utf8Bytes_eq_flatMap, List.flatMap_cons] at ih ⊢
    exact List.rel_append (List.forall₂_same.mpr fun b _ => .refl b) ih
  | blanked c _ ih =>
    simp only [utf8Bytes_eq_flatMap, List.flatMap_cons, List.flatMap_append] at ih ⊢
    exact List.rel_append (utf8Bytes_eq_flatMap _ ▸ forall₂_utf8Bytes_blankFor c) ih

theorem byteLength_eq (h : Blanked cs masked) : byteLength masked = byteLength cs := by
  rw [← length_utf8Bytes, ← length_utf8Bytes, h.forall₂_utf8Bytes.length_eq]

theorem lineBreaks_eq (h : Blanked cs masked) : lineBreaks masked = lineBreaks cs := by
  induction h with
  | nil => rfl
  | kept c _ ih => simp only [lineBreaks, List.count_cons] at ih ⊢; rw [ih]
  | blanked c _ ih =>
    simp only [lineBreaks, List.count_cons, List.count_append] at ih ⊢
    rw [ih, blankFor]
    split
    · next hbreak => simp [hbreak, Nat.add_comm]
    · next hbreak => simp [hbreak, List.count_replicate]

/-- A text of visible characters at the start stands at the start of the text. -/
theorem exists_append_of_solid {name rest : List Char} (h : Blanked cs (name ++ rest))
    (hname : ∀ c ∈ name, isBlank c = false) : ∃ after, cs = name ++ after ∧ Blanked after rest := by
  induction name generalizing cs with
  | nil => exact ⟨cs, rfl, h⟩
  | cons a name ih =>
    obtain ⟨ha, hname⟩ := List.forall_mem_cons.mp hname
    generalize hmasked : a :: name ++ rest = masked at h
    cases h with
    | nil => cases hmasked
    | kept c h =>
      obtain ⟨rfl, rfl⟩ := List.cons.inj hmasked
      obtain ⟨after, rfl, hafter⟩ := ih h hname
      exact ⟨after, rfl, hafter⟩
    | blanked c h =>
      obtain ⟨b, written, hwritten⟩ := List.exists_cons_of_ne_nil (CommentState.blankFor_ne_nil c)
      rw [hwritten, List.cons_append, List.cons_append] at hmasked
      obtain ⟨rfl, -⟩ := List.cons.inj hmasked
      rw [CommentState.isBlank_of_mem_blankFor (hwritten ▸ List.mem_cons_self)] at ha
      cases ha

/-- A text of visible characters stands at the same place in both texts. -/
theorem exists_append {before name rest : List Char} (h : Blanked cs (before ++ (name ++ rest)))
    (hne : name ≠ []) (hname : ∀ c ∈ name, isBlank c = false) :
    ∃ front after, cs = front ++ (name ++ after) ∧ Blanked front before ∧ Blanked after rest := by
  obtain ⟨a, name, rfl⟩ := List.exists_cons_of_ne_nil hne
  have ha := hname a List.mem_cons_self
  generalize hmasked : before ++ (a :: name ++ rest) = masked at h
  induction h generalizing before with
  | nil => simp at hmasked
  | kept c h ih =>
    cases before with
    | nil =>
      have hstart := Blanked.kept c h
      rw [← hmasked, List.nil_append] at hstart
      obtain ⟨after, hafter, hrest⟩ := hstart.exists_append_of_solid hname
      exact ⟨[], after, hafter, .nil, hrest⟩
    | cons b before =>
      obtain ⟨rfl, htail⟩ := List.cons.inj hmasked
      obtain ⟨front, after, rfl, hfront, hrest⟩ := ih htail
      exact ⟨_ :: front, after, rfl, .kept _ hfront, hrest⟩
  | blanked c h ih =>
    obtain ⟨between, rfl, htail⟩ := exists_of_blank_append
      (fun d => CommentState.isBlank_of_mem_blankFor) ha hmasked.symm
    obtain ⟨front, after, rfl, hfront, hrest⟩ := ih htail.symm
    exact ⟨c :: front, after, rfl, .blanked c hfront, hrest⟩

end Blanked

/-! ## A second time -/

/-- Blanks open no comment and no literal. -/
theorem codeAvoids_blanks_append {blanks cs : List Char} (hblank : ∀ c ∈ blanks, isBlank c = true)
    (h : CodeAvoids opensComment .code cs) : CodeAvoids opensComment .code (blanks ++ cs) := by
  induction blanks with
  | nil => exact h
  | cons c blanks ih =>
    obtain ⟨hc, hblanks⟩ := List.forall_mem_cons.mp hblank
    have hquote : isQuote c = false := by
      rw [isQuote, Bool.or_eq_false_iff, beq_eq_false_iff_ne, beq_eq_false_iff_ne]
      constructor <;> rintro rfl <;> exact absurd hc (by decide)
    have hslash : c ≠ '/' := by
      rintro rfl
      exact absurd hc (by decide)
    refine ⟨fun _ => by simp [opensComment, hslash], ?_⟩
    rw [LiteralState.step_code_of_not_isQuote hquote]
    exact ih hblanks

namespace CommentState

/-- No comment starts where comments are blanked out: what follows a kept slash is what follows it
in the text, or blank. -/
theorem codeAvoids_mask (state : CommentState) (cs : List Char) :
    CodeAvoids opensComment state.literal (state.mask cs) := by
  induction cs generalizing state with
  | nil => exact trivial
  | cons c rest ih =>
    rcases state.step_cases_literal c rest.head? with
      ⟨literal, rfl, hkept, hstep⟩ | ⟨hcode, hwritten, hnext⟩
    · rw [mask, hstep]
      refine ⟨fun hcode => ?_, ih (source (literal.step c))⟩
      have hmark := hkept hcode
      change opensComment c (mask (source (literal.step c)) rest).head? = false
      cases hhead : (mask (source (literal.step c)) rest).head? with
      | none => simp [opensComment]
      | some d =>
        rcases head?_mask hhead with hd | ⟨rfl, -⟩
        · rwa [← Option.mem_def.mp hd]
        · simp [opensComment]
    · simp only [hcode, mask, hwritten]
      exact codeAvoids_blanks_append (fun d => isBlank_of_mem_blankFor) (hnext ▸ ih _)

end CommentState

theorem codeAvoids_blankComments (cs : List Char) :
    CodeAvoids opensComment .code (blankComments cs) :=
  CommentState.codeAvoids_mask (.source .code) cs

theorem blankComments_blankComments (cs : List Char) :
    blankComments (blankComments cs) = blankComments cs :=
  mask_eq_self (codeAvoids_blankComments cs)

/-! ## Places -/

/-- A visible word stands in the text at the byte where it shows. A place behind it on the same line
has the line that the word has in the text. -/
theorem exists_word_of_blankComments {text front word more rest : List Char}
    (h : blankComments text = front ++ (word ++ (more ++ rest))) (hne : word ≠ [])
    (hsolid : ∀ c ∈ word, isBlank c = false) (hline : '\n' ∉ more) :
    ∃ before after, text = before ++ (word ++ after) ∧ byteLength before = byteLength front ∧
      lineAt (blankComments text) (byteLength (front ++ (word ++ more))) =
        lineBreaks before + 1 := by
  obtain ⟨before, after, htext, hbefore, -⟩ :=
    (h ▸ blanked_blankComments text).exists_append hne hsolid
  refine ⟨before, after, htext, hbefore.byteLength_eq.symm, ?_⟩
  have hmasked : blankComments text = (front ++ (word ++ more)) ++ rest := by
    rw [h]
    simp only [List.append_assoc]
  have hbreaks : (word ++ more).count '\n' = 0 := by
    refine List.count_eq_zero.mpr fun hmem => ?_
    rcases List.mem_append.mp hmem with hmem | hmem
    · exact absurd (hsolid _ hmem) (by decide)
    · exact hline hmem
  rw [hmasked, lineAt_append, ← hbefore.lineBreaks_eq, lineBreaks, lineBreaks, List.count_append,
    hbreaks, Nat.add_zero]

/-- The name of a class stands in the text at the place where its head has it, and the line of the
head is the line of this place. -/
theorem exists_name_of_mem_classHeads {text : List Char} {found : Occurrence ClassHead}
    (h : found ∈ classHeads (blankComments text)) :
    ∃ before after, text = before ++ (found.value.name.toList ++ after) ∧
      found.stop = byteLength (before ++ found.value.name.toList) ∧
      lineAt (blankComments text) found.stop = lineBreaks before + 1 := by
  obtain ⟨front, word, left, hopen, hname, -⟩ := exists_opening_of_mem_classHeads h
  have hsolid : ∀ c ∈ found.value.name.toList, isBlank c = false := fun c hc =>
    isBlank_of_isWordChar ((isName_of_mem_classHeads h).2 c hc)
  obtain ⟨-, htake, hdrop⟩ := name?_eq_some.mp hname
  have hmasked : blankComments text = front ++ (word ++ left.takeWhile isBlank) ++
      (found.value.name.toList ++ ([] ++ found.rest)) := by
    rw [List.nil_append, htake, hdrop, List.takeWhile_append_dropWhile, List.append_assoc,
      List.append_assoc, trimStart, List.takeWhile_append_dropWhile]
    exact hopen.eq
  generalize front ++ (word ++ left.takeWhile isBlank) = front at hmasked
  have hstop : found.stop = byteLength (front ++ found.value.name.toList) := by
    have hlength := stop_of_mem_occurrences suffix_of_classHead? h
    simp only [hmasked, byteLength_append, List.nil_append] at hlength ⊢
    omega
  obtain ⟨before, after, htext, hbefore, hline⟩ :=
    exists_word_of_blankComments hmasked (isName_of_mem_classHeads h).ne_nil hsolid (by simp)
  rw [List.append_nil, ← hstop] at hline
  exact ⟨before, after, htext, by rw [hstop, byteLength_append, byteLength_append, hbefore], hline⟩

/-! ## Reading -/

/-- Comments are invisible. Blanking them out shows every byte at its place; it leaves a text alone
exactly if no comment starts in it, and so what it has written. A file has the same findings and a
declaration the same default expressions in both texts, and a declaration is on the line on which
its class is named. -/
theorem blankComments_invisible (text : List Char) :
    List.Forall₂ Shows (utf8Bytes text) (utf8Bytes (blankComments text)) ∧
    (blankComments text = text ↔ CodeAvoids opensComment .code text) ∧
    blankComments (blankComments text) = blankComments text ∧
    (∀ path fallback,
      FileFindings.read path (blankComments text) fallback =
        FileFindings.read path text fallback) ∧
    (∀ d, Pending.withDefaults ⟨d, some (String.ofList (blankComments text))⟩ =
      Pending.withDefaults ⟨d, some (String.ofList text)⟩) ∧
    ∀ path fallback, ∀ d ∈ (FileFindings.read path text fallback).declarations,
      ∃ heads found heads' before after,
        ReadAt (.ofText path text fallback) d heads found heads' ∧
        text = before ++ (d.name.toList ++ after) ∧
        found.stop = byteLength (before ++ d.name.toList) ∧
        d.location = ⟨path, lineBreaks before + 1⟩ := by
  have hfixed := blankComments_blankComments text
  refine ⟨(blanked_blankComments text).forall₂_utf8Bytes, ⟨fun h => ?_, mask_eq_self⟩, hfixed,
    fun path fallback => ?_, fun d => ?_, fun path fallback d hd => ?_⟩
  · exact h ▸ codeAvoids_blankComments text
  · simp only [FileFindings.read, hfixed]
  · simp only [Pending.withDefaults, defaultExpressions, String.toList_ofList, hfixed]
  · obtain ⟨heads, found, heads', hat⟩ := mem_declarations_iff.mp hd
    obtain ⟨before, after, htext, hstop, hline⟩ := exists_name_of_mem_classHeads hat.mem_classHeads
    obtain ⟨_, -, rfl⟩ := hat.exists_eq
    exact ⟨heads, found, heads', before, after, hat, htext, hstop,
      congrArg (Location.mk path) hline⟩

end ComponentWiring.Source
