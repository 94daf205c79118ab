import ComponentWiring.Proofs.Source.Balance
import ComponentWiring.Proofs.Source.HeaderCases

/-!
The closing delimiter that is found is the one that matches. Outside literals, a stretch of text
that starts at an opening delimiter closes as many as it opens for the first time where the closing
delimiter of the first one stands (`closingOffset?_matches`), and if no stretch does, none is found.
The search keeps count of what is open. As long as it goes on, every stretch so far leaves something
open (`IsOpen`), and it ends where one delimiter is left (`closingFrom_eq_some_iff`).

So constructor and body of a class stand right behind their opening delimiters and end at the
matching ones, which is why the texts in between can be cut out.
-/

namespace ComponentWiring.Source

open Text

/-- Two delimiters: they differ, and neither is a quote. -/
structure Delimiters where
  opening : Char
  closing : Char
  plain : isQuote opening = false ∧ isQuote closing = false ∧ opening ≠ closing

namespace Delimiters

def parentheses : Delimiters := ⟨'(', ')', by decide⟩

def braces : Delimiters := ⟨'{', '}', by decide⟩

end Delimiters

/-! ## Counting outside literals -/

/-- How often a character stands in a text outside literals. -/
def countOutside (mark : Char) : LiteralState → List Char → Nat
  | _, [] => 0
  | literal, c :: cs =>
    (if literal = .code ∧ c = mark then 1 else 0) + countOutside mark (literal.step c) cs

theorem countOutside_append (mark : Char) (literal : LiteralState) (as bs : List Char) :
    countOutside mark literal (as ++ bs) =
      countOutside mark literal as + countOutside mark (literal.run as) bs := by
  induction as generalizing literal with
  | nil => simp [countOutside]
  | cons a as ih =>
    rw [List.cons_append, countOutside, ih, countOutside, LiteralState.run_cons, Nat.add_assoc]

namespace Delimiters

variable (marks : Delimiters) {depth : Nat} {literal : LiteralState} {c : Char}
  {cs before after : List Char}

/-- Behind a text that is read at a given depth, some delimiter is still open. -/
def IsOpen (depth : Nat) (literal : LiteralState) (cs : List Char) : Prop :=
  countOutside marks.closing literal cs < depth + countOutside marks.opening literal cs

/-- A stretch of text closes as many delimiters as it opens. -/
def Closes (stretch : List Char) : Prop :=
  stretch ≠ [] ∧
    countOutside marks.closing .code stretch = countOutside marks.opening .code stretch

/-! ## The search -/

/-- A step of the search that does not end it counts the delimiter that it passes. -/
theorem depthBehind_add (hgo : ¬(literal = .code ∧ c = marks.closing ∧ depth ≤ 1)) :
    depthBehind marks.opening marks.closing depth literal c +
        (if literal = .code ∧ c = marks.closing then 1 else 0) =
      depth + (if literal = .code ∧ c = marks.opening then 1 else 0) := by
  unfold depthBehind
  by_cases hcode : literal = .code
  · by_cases hopen : c = marks.opening
    · simp [hcode, hopen, marks.plain.2.2]
    · by_cases hclose : c = marks.closing
      · have hdepth : ¬depth ≤ 1 := fun hone => hgo ⟨hcode, hclose, hone⟩
        simp [hcode, hclose, marks.plain.2.2.symm]
        omega
      · simp [hopen, hclose]
  · simp [hcode]

variable {marks}

/-- So behind that step just the same is open. -/
theorem isOpen_cons (hgo : ¬(literal = .code ∧ c = marks.closing ∧ depth ≤ 1)) :
    marks.IsOpen depth literal (c :: cs) ↔
      marks.IsOpen (depthBehind marks.opening marks.closing depth literal c) (literal.step c)
        cs := by
  have hstep := marks.depthBehind_add hgo
  unfold IsOpen
  rw [countOutside, countOutside]
  omega

theorem isOpen_nil (hdepth : 1 ≤ depth) : marks.IsOpen depth literal [] := hdepth

/-- Before a closing delimiter of the outermost level something is open, and behind it nothing. -/
theorem isOpen_closing_iff (hdepth : 1 ≤ depth) :
    marks.IsOpen depth literal [marks.closing] ↔ ¬(literal = .code ∧ depth ≤ 1) := by
  by_cases hcode : literal = .code
  · simp [IsOpen, countOutside, hcode, marks.plain.2.2.symm]
  · simp [IsOpen, countOutside, hcode]
    omega

/-- Where no closing delimiter is found, every stretch leaves something open. -/
theorem isOpen_of_closingFrom_eq_none (hdepth : 1 ≤ depth)
    (h : closingFrom marks.opening marks.closing depth literal cs = none) {front : List Char}
    (hfront : front <+: cs) : marks.IsOpen depth literal front := by
  induction cs generalizing depth literal front with
  | nil =>
    rw [List.prefix_nil.mp hfront]
    exact isOpen_nil hdepth
  | cons c cs ih =>
    rw [closingFrom_cons marks.plain] at h
    split_ifs at h with hstop
    rcases List.prefix_cons_iff.mp hfront with rfl | ⟨more, rfl, hmore⟩
    · exact isOpen_nil hdepth
    · exact (isOpen_cons hstop).mpr
        (ih (one_le_depthBehind hstop hdepth) (Option.map_eq_none_iff.mp h) hmore)

/-- The closing delimiter that is found stands outside literals. Up to it every stretch leaves
something open, and with it nothing is left. -/
theorem closingFrom_eq_some_iff (hdepth : 1 ≤ depth) :
    closingFrom marks.opening marks.closing depth literal cs = some (before, after) ↔
      cs = before ++ marks.closing :: after ∧ literal.run before = .code ∧
        (∀ front, front <+: before → marks.IsOpen depth literal front) ∧
        ¬marks.IsOpen depth literal (before ++ [marks.closing]) := by
  induction cs generalizing depth literal before with
  | nil => simp [closingFrom]
  | cons c cs ih =>
    rw [closingFrom_cons marks.plain]
    by_cases hstop : literal = .code ∧ c = marks.closing ∧ depth ≤ 1
    · rw [if_pos hstop]
      obtain ⟨rfl, rfl, hone⟩ := hstop
      have hclosed : ¬marks.IsOpen depth .code [marks.closing] := fun hopen =>
        (isOpen_closing_iff hdepth).mp hopen ⟨rfl, hone⟩
      cases before with
      | nil =>
        simp [hclosed, isOpen_nil hdepth, eq_comm]
      | cons d before =>
        -- What is found ends the outermost level, and no stretch goes on behind it.
        refine iff_of_false (by simp) ?_
        rintro ⟨htext, -, hopen, -⟩
        obtain ⟨rfl, -⟩ := List.cons.inj htext
        exact hclosed (hopen [_] ⟨before, rfl⟩)
    · rw [if_neg hstop]
      cases before with
      | nil =>
        refine iff_of_false (by simp) ?_
        rintro ⟨htext, hcode, -, hclosed⟩
        obtain ⟨rfl, -⟩ := List.cons.inj htext
        exact hclosed ((isOpen_closing_iff hdepth).mpr fun hend => hstop ⟨hend.1, rfl, hend.2⟩)
      | cons d before =>
        have hpos : 1 ≤ depthBehind marks.opening marks.closing depth literal c :=
          one_le_depthBehind hstop hdepth
        simp only [Option.map_eq_some_iff, Prod.mk.injEq, Prod.exists, List.cons_append,
          List.cons.injEq]
        constructor
        · rintro ⟨_, _, hfound, ⟨rfl, rfl⟩, heq⟩
          subst heq
          obtain ⟨rfl, hcode, hopen, hclosed⟩ := (ih hpos).mp hfound
          refine ⟨⟨rfl, rfl⟩, hcode, fun front hfront => ?_, mt (isOpen_cons hstop).mp hclosed⟩
          rcases List.prefix_cons_iff.mp hfront with rfl | ⟨more, rfl, hmore⟩
          · exact isOpen_nil hdepth
          · exact (isOpen_cons hstop).mpr (hopen more hmore)
        · rintro ⟨⟨rfl, rfl⟩, hcode, hopen, hclosed⟩
          refine ⟨before, after, (ih hpos).mpr ⟨rfl, hcode, fun front hfront => ?_,
            mt (isOpen_cons hstop).mpr hclosed⟩, ⟨rfl, rfl⟩, rfl⟩
          exact (isOpen_cons hstop).mp (hopen _ (List.cons_prefix_cons.mpr ⟨rfl, hfront⟩))

/-- A stretch that starts with an opening delimiter and closes as many as it opens leaves nothing
open. -/
theorem exists_of_closes {rest stretch : List Char} (h : marks.Closes stretch)
    (hstretch : stretch <+: marks.opening :: rest) :
    ∃ front, stretch = marks.opening :: front ∧ front <+: rest ∧ ¬marks.IsOpen 1 .code front := by
  rcases List.prefix_cons_iff.mp hstretch with rfl | ⟨front, rfl, hfront⟩
  · exact absurd rfl h.1
  · refine ⟨front, rfl, hfront, fun hopen => ?_⟩
    have hcount := h.2
    have hstep : LiteralState.code.step marks.opening = .code :=
      LiteralState.step_code_of_not_isQuote marks.plain.1
    simp only [countOutside, hstep, marks.plain.2.2, true_and, if_true, if_false, and_false,
      Nat.zero_add] at hcount
    unfold IsOpen at hopen
    omega

/-- With the closing delimiter that is found, a stretch closes just as many as it opens. -/
theorem closes_of_closingFrom {rest : List Char}
    (h : closingFrom marks.opening marks.closing 1 .code rest = some (before, after)) :
    marks.Closes (marks.opening :: (before ++ [marks.closing])) := by
  obtain ⟨-, hcode, hopen, hclosed⟩ := (closingFrom_eq_some_iff (Nat.le_refl 1)).mp h
  have hlast := hopen before (List.prefix_refl _)
  have hstep : LiteralState.code.step marks.opening = .code :=
    LiteralState.step_code_of_not_isQuote marks.plain.1
  refine ⟨List.cons_ne_nil _ _, ?_⟩
  simp only [IsOpen, countOutside, countOutside_append, hcode, hstep, marks.plain.2.2,
    marks.plain.2.2.symm, true_and, if_true, if_false, and_false] at hlast hclosed ⊢
  omega

end Delimiters

/-! ## The closing delimiter of a place -/

/-- The closing delimiter at the byte `stop` matches the opening one at the byte `start`: it stands
outside literals and ends the shortest stretch that closes as many delimiters as it opens. -/
def Delimiters.Matches (marks : Delimiters) (text : List Char) (start stop : Nat) : Prop :=
  ∃ before inside after, text = before ++ marks.opening :: (inside ++ marks.closing :: after) ∧
    start = byteLength before ∧ stop = byteLength (before ++ marks.opening :: inside) ∧
    LiteralState.code.run inside = .code ∧
    marks.Closes (marks.opening :: (inside ++ [marks.closing])) ∧
    ∀ stretch, stretch <+: marks.opening :: (inside ++ marks.closing :: after) →
      marks.Closes stretch → (marks.opening :: (inside ++ [marks.closing])).length ≤ stretch.length

/-- A stretch starts right behind an opening delimiter and ends at the closing one that is found for
it. -/
def Delimiters.Encloses (marks : Delimiters) (text : List Char) (s : Stretch) : Prop :=
  ∃ before after, text = before ++ marks.opening :: (s.text ++ marks.closing :: after) ∧
    s.start = byteLength (before ++ [marks.opening]) ∧
    closingOffset? text (byteLength before) marks.opening marks.closing = some s.stop

theorem closingOffset?_eq (marks : Delimiters) (before rest : List Char) :
    closingOffset? (before ++ marks.opening :: rest) (byteLength before) marks.opening
        marks.closing =
      (closingFrom marks.opening marks.closing 1 .code rest).map fun found =>
        byteLength (before ++ marks.opening :: found.1) := by
  have hdepth : depthBehind marks.opening marks.closing 0 .code marks.opening = 1 := by
    simp [depthBehind]
  have hstop : ¬(LiteralState.code = .code ∧ marks.opening = marks.closing ∧ 0 ≤ 1) :=
    fun h => marks.plain.2.2 h.2.1
  simp only [closingOffset?, splitAtByte_append, Option.bind_eq_bind, Option.bind_some]
  rw [closingFrom_cons marks.plain, if_neg hstop, hdepth,
    LiteralState.step_code_of_not_isQuote marks.plain.1]
  cases closingFrom marks.opening marks.closing 1 .code rest <;> simp

theorem Delimiters.matches_of_closingFrom {marks : Delimiters} {rest inside after : List Char}
    (before : List Char)
    (h : closingFrom marks.opening marks.closing 1 .code rest = some (inside, after)) :
    marks.Matches (before ++ marks.opening :: rest) (byteLength before)
      (byteLength (before ++ marks.opening :: inside)) := by
  have hcloses := closes_of_closingFrom h
  obtain ⟨rfl, hcode, hopen, -⟩ := (closingFrom_eq_some_iff (Nat.le_refl 1)).mp h
  refine ⟨before, inside, after, rfl, rfl, rfl, hcode, hcloses, fun stretch hstretch hother => ?_⟩
  obtain ⟨front, rfl, hfront, hshut⟩ := exists_of_closes hother hstretch
  by_contra hshorter
  -- A shorter stretch would end before the delimiter, where something is open.
  refine hshut (hopen front (List.prefix_of_prefix_length_le hfront (List.prefix_append _ _) ?_))
  simp only [List.length_cons, List.length_append, List.length_nil] at hshorter
  omega

theorem Stretch.Stands.encloses {marks : Delimiters} {before cs : List Char} {s : Stretch}
    (hsize : marks.opening.utf8Size = 1)
    (h : s.Stands marks.opening marks.closing (byteLength before) cs) :
    marks.Encloses (before ++ cs) s := by
  obtain ⟨front, rest, after, rfl, hcut, hstart⟩ := h
  rw [enclosed?_cons marks.plain] at hcut
  have htext := closingFrom_eq_some hcut
  refine ⟨before ++ front, after, by rw [htext, List.append_assoc], ?_, ?_⟩
  · simp [hstart, hsize, Nat.add_assoc]
  · rw [← List.append_assoc, closingOffset?_eq, hcut, Option.map_some]
    simp [Stretch.stop, hstart, hsize, Nat.add_assoc]

/-- The closing delimiter of a place is found just where some stretch from there on closes as many
delimiters as it opens, and then it is the one that ends the shortest such stretch. Constructor and
body of a class, as its header gives them, each stand right behind an opening delimiter and end at
the closing one that is found for it, the body behind the constructor. -/
theorem closingOffset?_matches (marks : Delimiters) (before rest : List Char) :
    let text := before ++ marks.opening :: rest
    let found := closingOffset? text (byteLength before) marks.opening marks.closing
    (found.isSome = true ↔ ∃ stretch, stretch <+: marks.opening :: rest ∧ marks.Closes stretch) ∧
    (∀ stop ∈ found, byteLength before < stop ∧ marks.Matches text (byteLength before) stop) ∧
    ∀ front cs, let header := Header.read (byteLength front) cs
      (∀ inside visibility, header.shape = .primary inside visibility →
        Delimiters.parentheses.Encloses (front ++ cs) inside) ∧
      (∀ body ∈ header.body, Delimiters.braces.Encloses (front ++ cs) body) ∧
      ∀ inside visibility, header.shape = .primary inside visibility →
        ∀ body ∈ header.body, inside.stop < body.start := by
  intro text found
  have hfound : found = _ := closingOffset?_eq marks before rest
  refine ⟨?_, ?_, fun front cs => ?_⟩
  · rw [hfound, Option.isSome_map]
    cases hclosing : closingFrom marks.opening marks.closing 1 .code rest with
    | some r =>
      refine iff_of_true rfl ⟨_, ?_, Delimiters.closes_of_closingFrom hclosing⟩
      exact ⟨r.2, by simp [closingFrom_eq_some hclosing]⟩
    | none =>
      refine iff_of_false (by simp) ?_
      rintro ⟨stretch, hstretch, hcloses⟩
      obtain ⟨front, rfl, hfront, hshut⟩ := Delimiters.exists_of_closes hcloses hstretch
      exact hshut (Delimiters.isOpen_of_closingFrom_eq_none (Nat.le_refl 1) hclosing hfront)
  · intro stop hstop
    rw [hfound] at hstop
    obtain ⟨⟨inside, after⟩, hclosing, rfl⟩ := Option.map_eq_some_iff.mp hstop
    refine ⟨?_, Delimiters.matches_of_closingFrom before hclosing⟩
    rw [byteLength_append]
    exact Nat.lt_add_of_pos_right (byteLength_pos (List.cons_ne_nil _ _))
  · have hplaced := Header.placed_read (byteLength front) cs
    exact ⟨fun inside visibility h => (hplaced.constructor inside visibility h).encloses rfl,
      fun body h => (hplaced.body body h).encloses rfl, hplaced.apart⟩

/-- A delimiter in a literal is not counted. -/
example : closingOffset? "f(a, \")\", g())".toList 1 '(' ')' = some 13 := by decide +kernel

end ComponentWiring.Source
