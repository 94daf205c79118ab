import ComponentWiring.Proofs.Source.Annotations
import ComponentWiring.Proofs.Source.Markers

/-!
Annotations as they are written, with whatever arguments, and which of them the reader of annotations
takes: the plain ones, in whose arguments no parenthesis stands and behind which blanks do. What it
takes from a text is a run of plain annotations (`exists_run_of_annotations`), and it takes every
such run (`annotations_runText`).
-/

namespace ComponentWiring.Source

open Text

/-- A use-site target with its colon. -/
def siteText : Option (List Char) → List Char
  | some cs => cs ++ [':']
  | none => []

/-- Arguments in their parentheses. -/
def parenthesized : Option (List Char) → List Char
  | some cs => '(' :: (cs ++ [')'])
  | none => []

/-- An annotation such as `@A`, `@A(args)` or `@target:A(args)`, and the blanks behind it. -/
structure AnnotationText where
  target : Option (List Char) := none
  name : List Char
  arguments : Option (List Char) := none
  gap : List Char
  target_word : ∀ cs ∈ target, cs ≠ [] ∧ ∀ c ∈ cs, isWordChar c = true
  name_ne_nil : name ≠ []
  name_dotted : ∀ c ∈ name, isDottedChar c = true
  gap_blank : isAllBlank gap = true

namespace AnnotationText

/-- The annotation without the blanks behind it. -/
def text (a : AnnotationText) : List Char :=
  '@' :: (siteText a.target ++ (a.name ++ parenthesized a.arguments))

/-- An annotation without inner parentheses, and with blanks behind it. -/
structure IsPlain (a : AnnotationText) : Prop where
  arguments : ∀ cs ∈ a.arguments, '(' ∉ cs ∧ ')' ∉ cs
  gap : a.gap ≠ []

/-- Annotations one behind the other. -/
def runText (annotations : List AnnotationText) : List Char :=
  annotations.flatMap fun a => a.text ++ a.gap

@[simp] theorem runText_nil : runText [] = [] := rfl

@[simp] theorem runText_cons (a : AnnotationText) (annotations : List AnnotationText) :
    runText (a :: annotations) = a.text ++ (a.gap ++ runText annotations) := by
  simp [runText]

theorem runText_append (as bs : List AnnotationText) :
    runText (as ++ bs) = runText as ++ runText bs := by
  simp [runText]

end AnnotationText

/-! ## The parts of an annotation -/

/-- What stands behind a use-site target, if there is one. -/
theorem exists_siteText (cs : List Char) : ∃ target,
    (∀ word ∈ target, word ≠ [] ∧ ∀ c ∈ word, isWordChar c = true) ∧
      cs = siteText target ++ afterUseSite cs := by
  unfold afterUseSite
  split
  · next c word rest htake hdrop =>
    refine ⟨some (c :: word), ?_, ?_⟩
    · rintro _ ⟨rfl⟩
      exact ⟨by simp, fun d hd => List.mem_takeWhile_imp (htake ▸ hd)⟩
    · rw [siteText, ← htake, List.append_assoc, List.singleton_append, ← hdrop,
        List.takeWhile_append_dropWhile]
  · exact ⟨none, by simp, rfl⟩

theorem afterUseSite_dotted {name rest : List Char} (hname : ∀ c ∈ name, isDottedChar c = true)
    (hrest : ∀ c ∈ rest.head?, isAnnotationChar c = false) :
    afterUseSite (name ++ rest) = name ++ rest := by
  rw [afterUseSite_append hrest, afterUseSite]
  split
  · next hdrop =>
    have hcolon := hname ':' ((List.dropWhile_suffix _).subset (hdrop ▸ List.mem_cons_self))
    exact absurd hcolon (by decide)
  · rfl

theorem afterUseSite_siteText {target : Option (List Char)} {name rest : List Char}
    (htarget : ∀ word ∈ target, word ≠ [] ∧ ∀ c ∈ word, isWordChar c = true)
    (hname : ∀ c ∈ name, isDottedChar c = true)
    (hrest : ∀ c ∈ rest.head?, isAnnotationChar c = false) :
    afterUseSite (siteText target ++ (name ++ rest)) = name ++ rest := by
  cases target with
  | none =>
    rw [siteText, List.nil_append]
    exact afterUseSite_dotted hname hrest
  | some word =>
    obtain ⟨hne, hword⟩ := htarget word rfl
    obtain ⟨c, word, rfl⟩ := List.exists_cons_of_ne_nil hne
    have hstop : ∀ c ∈ (':' :: (name ++ rest)).head?, isWordChar c = false := by
      simpa using isWordChar_colon
    rw [siteText, List.append_assoc, List.singleton_append, afterUseSite,
      takeWhile_append_of_head hword hstop, dropWhile_append_of_head hword hstop]
    rfl

/-- What stands behind arguments without parentheses, if there are any. -/
theorem exists_parenthesized (cs : List Char) : ∃ arguments,
    (∀ inside ∈ arguments, '(' ∉ inside ∧ ')' ∉ inside) ∧
      cs = parenthesized arguments ++ afterPlainArguments cs := by
  unfold afterPlainArguments
  split
  · next rest =>
    split
    · next after hclose =>
      refine ⟨some (rest.takeWhile fun c => c != '(' && c != ')'), ?_, ?_⟩
      · rintro _ ⟨rfl⟩
        constructor <;> intro hmem <;> exact absurd (List.mem_takeWhile_imp hmem) (by decide)
      · rw [parenthesized, List.cons_append, List.append_assoc, List.singleton_append, ← hclose,
          List.takeWhile_append_dropWhile]
    · exact ⟨none, by simp, rfl⟩
  · exact ⟨none, by simp, rfl⟩

theorem afterPlainArguments_parenthesized {arguments : Option (List Char)} {rest : List Char}
    (harguments : ∀ inside ∈ arguments, '(' ∉ inside ∧ ')' ∉ inside) (hrest : '(' ∉ rest.head?) :
    afterPlainArguments (parenthesized arguments ++ rest) = rest := by
  cases arguments with
  | none =>
    rw [parenthesized, List.nil_append]
    unfold afterPlainArguments
    split
    · exact absurd rfl hrest
    · rfl
  | some inside =>
    obtain ⟨hopen, hclose⟩ := harguments inside rfl
    have hdrop : (inside ++ ')' :: rest).dropWhile (fun c => c != '(' && c != ')') =
        ')' :: rest := by
      refine dropWhile_append_of_head (fun c hc => ?_) (by simp)
      have hne : c ≠ '(' ∧ c ≠ ')' :=
        ⟨fun heq => hopen (heq ▸ hc), fun heq => hclose (heq ▸ hc)⟩
      simp [hne]
    rw [parenthesized, List.cons_append, List.append_assoc, List.singleton_append,
      afterPlainArguments, hdrop]
    rfl

/-! ## Reading annotations -/

section Reading

variable {cs rest text : List Char} {a : AnnotationText} {run : List AnnotationText}

/-- What is read as an annotation is a plain one. -/
theorem exists_plain_of_annotation? (h : annotation? cs = some (text, rest)) :
    ∃ a : AnnotationText, a.IsPlain ∧ a.text = text ∧ cs = a.text ++ (a.gap ++ rest) := by
  unfold annotation? annotationWith? at h
  split at h
  · next behind =>
    simp only at h
    split_ifs at h with hname
    obtain ⟨after, hafter, heq⟩ := Option.map_eq_some_iff.mp h
    cases heq
    obtain ⟨gap, hgap, hne, hblank⟩ := exists_gap_of_afterBlanks? hafter
    obtain ⟨target, htarget, hsite⟩ := exists_siteText behind
    obtain ⟨arguments, harguments, hlist⟩ :=
      exists_parenthesized ((afterUseSite behind).dropWhile isDottedChar)
    let a : AnnotationText := {
      target, name := (afterUseSite behind).takeWhile isDottedChar, arguments, gap
      target_word := htarget
      name_ne_nil := by simpa using hname
      name_dotted := fun c => List.mem_takeWhile_imp
      gap_blank := hblank }
    have hcs : '@' :: behind =
        a.text ++ afterPlainArguments ((afterUseSite behind).dropWhile isDottedChar) := by
      conv_lhs => rw [hsite, ← List.takeWhile_append_dropWhile (p := isDottedChar)
        (l := afterUseSite behind), hlist]
      simp [a, AnnotationText.text]
    have htext : a.text = ('@' :: behind).take (('@' :: behind).length -
        (afterPlainArguments ((afterUseSite behind).dropWhile isDottedChar)).length) := by
      rw [hcs, List.length_append, Nat.add_sub_cancel, List.take_left]
    exact ⟨a, ⟨harguments, hne⟩, htext, by rw [hcs, hgap]⟩
  · cases h

/-- Every plain annotation is read. -/
theorem annotation?_text (ha : a.IsPlain) (hrest : ∀ c ∈ rest.head?, isBlank c = false) :
    annotation? (a.text ++ (a.gap ++ rest)) = some (a.text, rest) := by
  obtain ⟨b, gap, hgap⟩ := List.exists_cons_of_ne_nil ha.gap
  have hblank := a.gap_blank
  rw [hgap, isAllBlank_cons] at hblank
  obtain ⟨hb, hblank⟩ := hblank
  have hhead : (a.gap ++ rest).head? = some b := by rw [hgap]; rfl
  have hbehind : ∀ c ∈ (parenthesized a.arguments ++ (a.gap ++ rest)).head?,
      isAnnotationChar c = false := by
    cases a.arguments with
    | none =>
      rw [parenthesized, List.nil_append, hhead]
      rintro c ⟨rfl⟩
      exact isAnnotationChar_of_isBlank hb
    | some inside =>
      rintro c ⟨rfl⟩
      decide
  have hdotted : ∀ c ∈ (parenthesized a.arguments ++ (a.gap ++ rest)).head?,
      isDottedChar c = false := fun c hc => (Bool.or_eq_false_iff.mp (hbehind c hc)).1
  have htext : a.text ++ (a.gap ++ rest) = '@' :: (siteText a.target ++
      (a.name ++ (parenthesized a.arguments ++ (a.gap ++ rest)))) := by
    simp [AnnotationText.text]
  have hsite := afterUseSite_siteText a.target_word a.name_dotted hbehind
  have hlist : afterPlainArguments (parenthesized a.arguments ++ (a.gap ++ rest)) = a.gap ++ rest :=
    afterPlainArguments_parenthesized ha.arguments (by rw [hhead]; simpa using ne_of_isBlank hb rfl)
  have hblanks : afterBlanks? (a.gap ++ rest) = some rest := by
    rw [hgap, List.cons_append, afterBlanks?, if_pos hb, trimStart_append_of_blank hblank,
      trimStart_eq_self hrest]
  rw [annotation?, htext, annotationWith?]
  simp only [hsite, takeWhile_append_of_head a.name_dotted hdotted,
    dropWhile_append_of_head a.name_dotted hdotted, hlist, hblanks, Option.map_some]
  rw [if_neg (by simpa using a.name_ne_nil), ← htext, List.length_append, Nat.add_sub_cancel,
    List.take_left]

/-- The annotations at the front of a text are a run of plain ones. -/
theorem exists_run_of_annotations (cs : List Char) : ∃ run : List AnnotationText,
    (∀ a ∈ run, a.IsPlain) ∧ (annotations cs).1 = run.map (·.text) ∧
      cs = AnnotationText.runText run ++ (annotations cs).2 := by
  have hfuel : ∀ fuel cs, ∃ run : List AnnotationText, (∀ a ∈ run, a.IsPlain) ∧
      (repeatReader annotation? fuel cs).1 = run.map (·.text) ∧
        cs = AnnotationText.runText run ++ (repeatReader annotation? fuel cs).2 := by
    intro fuel
    induction fuel with
    | zero => exact fun cs => ⟨[], by simp, rfl, rfl⟩
    | succ fuel ih =>
      intro cs
      cases hread : annotation? cs with
      | none => exact ⟨[], by simp, by simp [repeatReader, hread], by simp [repeatReader, hread]⟩
      | some r =>
        obtain ⟨text, rest⟩ := r
        obtain ⟨a, hplain, rfl, hcs⟩ := exists_plain_of_annotation? hread
        obtain ⟨run, hall, htexts, hrest⟩ := ih rest
        refine ⟨a :: run, List.forall_mem_cons.mpr ⟨hplain, hall⟩, ?_, ?_⟩
        · simp [repeatReader, hread, htexts]
        · simp only [repeatReader, hread, AnnotationText.runText_cons, List.append_assoc]
          rw [← hrest]
          exact hcs
  exact hfuel cs.length cs

/-- Every run of plain annotations is read. -/
theorem annotations_runText (hrun : ∀ a ∈ run, a.IsPlain)
    (hrest : ∀ c ∈ rest.head?, isBlank c = false ∧ c ≠ '@') :
    annotations (AnnotationText.runText run ++ rest) = (run.map (·.text), rest) := by
  induction run with
  | nil => exact annotations_of_head fun hc => (hrest '@' hc).2 rfl
  | cons a run ih =>
    obtain ⟨ha, hrun⟩ := List.forall_mem_cons.mp hrun
    have hhead : ∀ c ∈ (AnnotationText.runText run ++ rest).head?, isBlank c = false := by
      cases run with
      | nil => exact fun c hc => (hrest c hc).1
      | cons b run =>
        rw [AnnotationText.runText_cons]
        rintro c ⟨rfl⟩
        rfl
    rw [AnnotationText.runText_cons, List.append_assoc, List.append_assoc, annotations,
      readAll_of_some length_lt_of_annotation? (annotation?_text ha hhead)]
    rw [annotations] at ih
    rw [ih hrun, List.map_cons]

end Reading

end ComponentWiring.Source
