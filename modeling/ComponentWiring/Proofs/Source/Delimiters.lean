import ComponentWiring.Proofs.Source.ListCutting

/-!
Texts between delimiters. What stands between brackets closes every bracket and every literal and
may have commas anywhere (`IsMatched`); of a class body only the braces count (`ClosesBraces`). The
search for a closing delimiter passes over such a text, whatever follows it (`IsMatched.passesBy`,
`ClosesBraces.enclosed?`).

Looking for a closing angle bracket, the search does not know the arrows of function types: it
passes over a text without arrows and stops inside any other (`closingFrom_angles`,
`IsMatched.enclosed?_of_arrows`).
-/

namespace ComponentWiring.Source

open Text

/-! ## Brackets -/

/-- A text that closes every bracket and every literal, with commas anywhere. It is read inside a
bracket of its own kind, which nothing closes. -/
def IsMatched (angles : Bool) (cs : List Char) : Prop :=
  ∃ s, Opened.run? angles { brackets := ['|'] } cs = some s ∧ s.brackets = ['|'] ∧
    s.literal = .code

instance (angles : Bool) (cs : List Char) : Decidable (IsMatched angles cs) :=
  match h : Opened.run? angles { brackets := ['|'] } cs with
  | none => .isFalse fun ⟨s, hs, _⟩ => by simp [h] at hs
  | some s =>
    if hs : s.brackets = ['|'] ∧ s.literal = .code then .isTrue ⟨s, h, hs⟩
    else .isFalse fun ⟨t, ht, hclosed⟩ => hs (Option.some.inj (h.symm.trans ht) ▸ hclosed)

namespace Opened

variable {angles : Bool} {s s' : Opened} {inner outer cs : List Char} {c : Char}

/-- Inside other brackets a text does what it does inside the bracket of its own kind. -/
theorem step?_inside (inner outer : List Char)
    (h : step? angles { s with brackets := inner ++ ['|'] } c = some s')
    (houter : outer ≠ []) : ∃ inner', s'.brackets = inner' ++ ['|'] ∧
      step? angles { s with brackets := inner ++ outer } c =
        some { s' with brackets := inner' ++ outer } := by
  unfold step? at h ⊢
  by_cases hcode : s.literal = .code
  · rw [if_neg (by simp [hcode])] at h ⊢
    split_ifs at h ⊢ with hopen hclose hcomma
    · cases h
      exact ⟨c :: inner, rfl, rfl⟩
    · cases inner with
      | nil => simp [matchesBracket] at h
      | cons opening inner =>
        simp only [List.cons_append] at h ⊢
        split_ifs at h ⊢
        cases h
        exact ⟨inner, rfl, rfl⟩
    · simp [houter] at hcomma
    · cases h
      exact ⟨inner, rfl, rfl⟩
  · rw [if_pos hcode] at h ⊢
    cases h
    exact ⟨inner, rfl, rfl⟩

theorem run?_inside (inner outer : List Char)
    (h : run? angles { s with brackets := inner ++ ['|'] } cs = some s')
    (houter : outer ≠ []) : ∃ inner', s'.brackets = inner' ++ ['|'] ∧
      run? angles { s with brackets := inner ++ outer } cs =
        some { s' with brackets := inner' ++ outer } := by
  induction cs generalizing s inner with
  | nil =>
    cases h
    exact ⟨inner, rfl, rfl⟩
  | cons c cs ih =>
    obtain ⟨t, hstep, hrun⟩ := run?_cons h
    obtain ⟨inner', ht, hstep'⟩ := step?_inside inner outer hstep houter
    obtain ⟨brackets, literal, dash⟩ := t
    subst ht
    obtain ⟨last, hlast, hrun'⟩ := ih (s := ⟨[], literal, dash⟩) inner' hrun
    exact ⟨last, hlast, by rw [run?, hstep', Option.bind_some]; exact hrun'⟩

end Opened

/-! ## Arrows -/

/-- The number of arrows outside literals. -/
def arrows : LiteralState → (afterDash : Bool) → List Char → Nat
  | _, _, [] => 0
  | literal, afterDash, c :: cs =>
    (if literal = .code ∧ afterDash ∧ c = '>' then 1 else 0) +
      arrows (literal.step c) (c == '-') cs

section Angles

variable {s s' : Opened} {cs : List Char} {depth : Nat}

/-- What a step does to the number of open angle brackets. -/
theorem Opened.angles_step {c : Char} (h : s.step? true c = some s') : s'.angles + 1 =
    if s.literal ≠ .code then s.angles + 1
    else if c = '<' then s.angles + 2
    else if c = '>' ∧ ¬s.afterDash then s.angles
    else s.angles + 1 := by
  have hfollows : Nesting.Follows ⟨s.depth, 1 + s.angles, s.literal, s.afterDash⟩ s :=
    ⟨rfl, rfl, rfl⟩
  have hstep := hfollows.angles_step h rfl
  rw [Nesting.step_angles] at hstep
  simp only at hstep
  rw [Nat.add_comm, ← hstep]
  split_ifs <;> omega

/-- Looking for a closing angle bracket, one step of a text either stops at it or goes on; an arrow
counts as a closing bracket that the text does not know. It stops only at an arrow, or at a bracket
that the text closes itself. -/
theorem closingFrom_angles_step {c : Char} (h : s.step? true c = some s') (hdepth : 1 ≤ depth) :
    (c = '>' ∧ (s.literal = .code ∧ s.afterDash ∨ depth ≤ s.angles) ∧
      ∀ rest, closingFrom '<' '>' depth s.literal (c :: rest) = some ([], rest)) ∨
    ∃ depth', 1 ≤ depth' ∧
      depth' + s.angles + (if s.literal = .code ∧ s.afterDash ∧ c = '>' then 1 else 0) =
        depth + s'.angles ∧
      ∀ rest, closingFrom '<' '>' depth s.literal (c :: rest) =
        (closingFrom '<' '>' depth' s'.literal rest).map
          fun (before, after) => (c :: before, after) := by
  have hangles := Opened.angles_step h
  obtain ⟨⟨hliteral, -⟩, -⟩ := Opened.step?_cases h
  by_cases hstop : s.literal = .code ∧ c = '>' ∧ depth ≤ 1
  · obtain ⟨hcode, rfl, hone⟩ := hstop
    refine .inl ⟨rfl, ?_, fun rest => ?_⟩
    · cases hdash : s.afterDash with
      | true => exact .inl ⟨hcode, rfl⟩
      | false =>
        simp only [hcode, hdash, ne_eq, not_true_eq_false, if_false, Char.reduceEq,
          Bool.false_eq_true, not_false_eq_true, and_self, if_true] at hangles
        exact .inr (by omega)
    · rw [closingFrom_cons (by decide), if_pos ⟨hcode, rfl, hone⟩]
  · have hpos : 1 ≤ depthBehind '<' '>' depth s.literal c := one_le_depthBehind hstop hdepth
    refine .inr ⟨_, hpos, ?_, fun rest => ?_⟩
    · unfold depthBehind at hpos ⊢
      split_ifs at hangles hpos ⊢ <;> simp_all <;> omega
    · rw [closingFrom_cons (by decide), if_neg hstop, hliteral]

/-- Along a text the search stops at an angle bracket, or it arrives at the end having counted the
arrows as closing brackets. -/
theorem closingFrom_angles (h : Opened.run? true s cs = some s') (hdepth : 1 ≤ depth) :
    (∃ before after, cs = before ++ '>' :: after ∧
      (arrows s.literal s.afterDash cs ≠ 0 ∨ depth ≤ s.angles) ∧
      ∀ rest, closingFrom '<' '>' depth s.literal (cs ++ rest) = some (before, after ++ rest)) ∨
    ∃ depth', 1 ≤ depth' ∧
      depth' + s.angles + arrows s.literal s.afterDash cs = depth + s'.angles ∧
      ∀ rest, closingFrom '<' '>' depth s.literal (cs ++ rest) =
        (closingFrom '<' '>' depth' s'.literal rest).map
          fun (before, after) => (cs ++ before, after) := by
  induction cs generalizing s depth with
  | nil =>
    cases h
    exact .inr ⟨depth, hdepth, by simp [arrows], by simp⟩
  | cons c cs ih =>
    obtain ⟨t, hstep, hrun⟩ := Opened.run?_cons h
    obtain ⟨⟨hliteral, hdash⟩, -⟩ := Opened.step?_cases hstep
    rw [arrows, ← hliteral, ← hdash]
    rcases closingFrom_angles_step hstep hdepth with
      ⟨rfl, hwhy, hstop⟩ | ⟨depth', hpos, hcount, hgo⟩
    · refine .inl ⟨[], cs, rfl, ?_, fun rest => hstop (cs ++ rest)⟩
      refine hwhy.imp_left fun harrow => ?_
      rw [if_pos ⟨harrow.1, harrow.2, rfl⟩]
      omega
    · rcases ih hrun hpos with ⟨before, after, rfl, hwhy, hstop⟩ | ⟨last, hlast, hcount', hgo'⟩
      · refine .inl ⟨c :: before, after, rfl, by omega, fun rest => ?_⟩
        rw [List.cons_append, hgo, hstop, Option.map_some]
      · refine .inr ⟨last, hlast, by omega, fun rest => ?_⟩
        rw [List.cons_append, hgo, hgo', Option.map_map]
        rfl

end Angles

/-! ## Closing delimiters -/

theorem Opened.afterDash_run? {angles : Bool} {s s' : Opened} {cs : List Char}
    (h : run? angles s cs = some s') (hs : s.afterDash = false)
    (hlast : cs.getLast? ≠ some '-') : s'.afterDash = false := by
  rcases List.eq_nil_or_concat cs with rfl | ⟨front, c, rfl⟩
  · cases h
    exact hs
  · rw [List.concat_eq_append, run?_append] at h
    obtain ⟨t, -, hend⟩ := Option.bind_eq_some_iff.mp h
    obtain ⟨_, hstep, hnil⟩ := run?_cons hend
    cases hnil
    rw [(step?_cases hstep).1.2]
    simpa using hlast

namespace IsMatched

variable {angles : Bool} {cs : List Char}

theorem exists_run? (h : IsMatched angles cs) : ∃ dash,
    Opened.run? angles { brackets := ['|'] } cs = some { brackets := ['|'], afterDash := dash } := by
  obtain ⟨⟨brackets, literal, dash⟩, hrun, rfl, rfl⟩ := h
  exact ⟨dash, hrun⟩

theorem passesBy (h : IsMatched angles cs) : PassesBy cs := by
  obtain ⟨dash, hrun⟩ := h.exists_run?
  intro around rest haround
  exact closingFrom_run hrun haround rest

/-- In brackets that belong together the text is balanced. -/
theorem balanced_angles (h : IsMatched true cs) (hlast : cs.getLast? ≠ some '-') :
    IsBalanced true ('<' :: (cs ++ ['>'])) := by
  obtain ⟨dash, hrun⟩ := h.exists_run?
  obtain rfl : dash = false := Opened.afterDash_run? hrun rfl hlast
  obtain ⟨inner, hinner, hinside⟩ :=
    Opened.run?_inside (s := {}) [] ['<'] hrun (by simp)
  obtain rfl : inner = [] := by simpa using hinner.symm
  have hopen : Opened.step? true {} '<' = some { brackets := ['<'] } := by decide
  have hclose : Opened.run? true { brackets := ['<'] } ['>'] = some {} := by decide
  refine ⟨{}, ?_, rfl, rfl⟩
  rw [Opened.run?, hopen, Option.bind_some, Opened.run?_append]
  exact (congrArg (Option.bind · _) hinside).trans hclose

/-- Without arrows the search for the closing angle bracket finds the one behind the text. -/
theorem enclosed?_angles (h : IsMatched true cs) (harrows : arrows .code false cs = 0)
    (rest : List Char) : enclosed? '<' '>' ('<' :: (cs ++ '>' :: rest)) = some (cs, rest) := by
  obtain ⟨dash, hrun⟩ := h.exists_run?
  rcases closingFrom_angles hrun (Nat.le_refl 1) with ⟨_, _, -, hwhy, -⟩ | ⟨depth, _, hcount, hgo⟩
  · simp [harrows, Opened.angles] at hwhy
  · obtain rfl : depth = 1 := by simpa [harrows, Opened.angles] using hcount
    exact enclosed?_of_passed (by decide) (hgo ('>' :: rest))

/-- With arrows it stops inside the text. -/
theorem enclosed?_of_arrows (h : IsMatched true cs) (harrows : arrows .code false cs ≠ 0) :
    ∃ before after, cs = before ++ '>' :: after ∧ ∀ rest,
      enclosed? '<' '>' ('<' :: (cs ++ rest)) = some (before, after ++ rest) := by
  obtain ⟨dash, hrun⟩ := h.exists_run?
  rcases closingFrom_angles hrun (Nat.le_refl 1) with ⟨before, after, rfl, -, hstop⟩ |
    ⟨depth, hpos, hcount, -⟩
  · exact ⟨before, after, rfl, fun rest => (enclosed?_cons (by decide) _).trans (hstop rest)⟩
  · simp only [Opened.angles, List.count_singleton] at hcount
    simp at hcount
    omega

end IsMatched

/-! ## Braces -/

/-- The number of braces that are open behind a text and the literal it ends in; `none` if a brace
closes that the text does not open. -/
def openBraces? : (depth : Nat) → LiteralState → List Char → Option (Nat × LiteralState)
  | depth, literal, [] => some (depth, literal)
  | depth, literal, c :: cs =>
    if literal = .code ∧ c = '}' then
      if depth = 0 then none else openBraces? (depth - 1) .code cs
    else
      openBraces? (if literal = .code ∧ c = '{' then depth + 1 else depth) (literal.step c) cs

/-- A text that closes its braces and its literals. -/
def ClosesBraces (cs : List Char) : Prop :=
  openBraces? 0 .code cs = some (0, .code)

instance (cs : List Char) : Decidable (ClosesBraces cs) :=
  inferInstanceAs (Decidable (openBraces? 0 .code cs = some (0, .code)))

theorem closingFrom_braces {depth depth' : Nat} {literal literal' : LiteralState} {cs : List Char}
    (h : openBraces? depth literal cs = some (depth', literal')) {around : Nat}
    (haround : 1 ≤ around) (rest : List Char) :
    closingFrom '{' '}' (around + depth) literal (cs ++ rest) =
      (closingFrom '{' '}' (around + depth') literal' rest).map
        fun (before, after) => (cs ++ before, after) := by
  induction cs generalizing depth literal with
  | nil =>
    cases h
    simp
  | cons c cs ih =>
    have hgo {next : Nat} (hnext : openBraces? next (literal.step c) cs = some (depth', literal'))
        (hdepth : depthBehind '{' '}' (around + depth) literal c = around + next)
        (hstop : ¬(literal = .code ∧ c = '}' ∧ around + depth ≤ 1)) :
        closingFrom '{' '}' (around + depth) literal (c :: cs ++ rest) =
          (closingFrom '{' '}' (around + depth') literal' rest).map
            fun (before, after) => (c :: cs ++ before, after) := by
      rw [List.cons_append, closingFrom_cons (by decide), if_neg hstop, hdepth, ih hnext,
        Option.map_map]
      rfl
    rw [openBraces?] at h
    split_ifs at h with hclose hzero hopen
    · obtain ⟨rfl, rfl⟩ := hclose
      refine hgo h ?_ (by omega)
      simp only [depthBehind, ne_eq, not_true_eq_false, if_false, Char.reduceEq, if_true]
      omega
    · obtain ⟨rfl, rfl⟩ := hopen
      exact hgo h (by simp [depthBehind, Nat.add_assoc]) (by simp)
    · refine hgo h ?_ (fun hstop => hclose ⟨hstop.1, hstop.2.1⟩)
      unfold depthBehind
      split_ifs <;> simp_all

/-- What stands between braces. -/
theorem ClosesBraces.enclosed? {cs : List Char} (h : ClosesBraces cs) (rest : List Char) :
    enclosed? '{' '}' ('{' :: (cs ++ '}' :: rest)) = some (cs, rest) :=
  enclosed?_of_passed (by decide) (closingFrom_braces h (Nat.le_refl 1) ('}' :: rest))

end ComponentWiring.Source
