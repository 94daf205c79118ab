import Mathlib.Data.List.Infix
import ComponentWiring.Proofs.Source.Delimiters
import ComponentWiring.Proofs.Source.Headers

/-!
Lists of supertypes as they are written: calls with commas between them, each a type and its
arguments in parentheses. Such a list is read in three steps. A scan looks for its end, a cut takes
it apart at the commas, and of each part the type before the call is kept. Every step has its own
way with literals and angle brackets, and for each it is said here when it does what it is for
(`supertypeStretch_of_reachesBrace`, `cutFrom_joined`) and that it does so only then
(`reachesBrace_of_supertypeStretch`, `closed_of_length_cutFrom_joined`); for the last one it is both
at once (`supertypeName_eq_iff`).
-/

namespace ComponentWiring.Source

open Text

/-! ## Calls -/

/-- Type parameters or type arguments in their angle brackets, if there are any. -/
def inAngles : Option (List Char) → List Char
  | none => []
  | some cs => '<' :: (cs ++ ['>'])

/-- What can stand between angle brackets: it closes what it opens, and no dash at its end makes an
arrow of the bracket behind it. -/
def FillsAngles (cs : List Char) : Prop :=
  IsMatched true cs ∧ cs.getLast? ≠ some '-'

instance (cs : List Char) : Decidable (FillsAngles cs) :=
  inferInstanceAs (Decidable (_ ∧ _))

theorem balanced_inAngles {o : Option (List Char)} (h : ∀ cs ∈ o, FillsAngles cs) :
    IsBalanced true (inAngles o) := by
  cases o with
  | none => exact .nil
  | some cs => exact (h cs rfl).1.balanced_angles (h cs rfl).2

/-- A supertype with the arguments of its constructor, and the blanks in front of it. -/
structure SupertypeCall where
  gap : List Char
  name : List Char
  typeArguments : Option (List Char) := none
  arguments : List Char
  gap_blank : isAllBlank gap = true
  name_ne_nil : name ≠ []
  name_dotted : ∀ c ∈ name, isDottedChar c = true
  typeArguments_fill : ∀ cs ∈ typeArguments, FillsAngles cs
  arguments_matched : IsMatched false arguments

namespace SupertypeCall

/-- The supertype that is called. -/
def type (call : SupertypeCall) : List Char :=
  call.name ++ inAngles call.typeArguments

/-- The call up to its parenthesis. -/
def opened (call : SupertypeCall) : List Char :=
  call.gap ++ call.type ++ ['(']

/-- The call as it is written. -/
def text (call : SupertypeCall) : List Char :=
  call.opened ++ (call.arguments ++ [')'])

/-- The angle brackets that the arguments leave open, as counted by the list reader, which takes
each `<` for a bracket. -/
def leaves (call : SupertypeCall) (around : Nat) : Nat :=
  (Nesting.run true { depth := 1, angles := around } call.arguments).angles

variable (call : SupertypeCall)

theorem isDottedChar_solid {c : Char} (h : isDottedChar c = true) : isBlank c = false := by
  simp only [isDottedChar, Bool.or_eq_true, beq_iff_eq] at h
  rcases h with h | rfl
  · exact isBlank_of_isWordChar h
  · decide

theorem type_trimmed : Trimmed call.type := by
  have hname : Trimmed call.name := {
    ne_nil := call.name_ne_nil
    head := fun c hc => isDottedChar_solid (call.name_dotted c (List.mem_of_head? hc))
    last := fun c hc => isDottedChar_solid (call.name_dotted c (List.mem_of_getLast? hc)) }
  unfold type
  cases call.typeArguments with
  | none => rwa [inAngles, List.append_nil]
  | some cs =>
    refine Trimmed.append_left ?_ hname.ne_nil hname.head
    have hclose : Trimmed ['>'] := by decide
    have hangles : Trimmed ('<' :: cs ++ ['>']) := hclose.append_left (by simp) (by simp; decide)
    exact hangles

theorem name_balanced : IsBalanced true call.name :=
  .of_isPlain <| List.all_eq_true.mpr fun c hc =>
    isPlain_of_class (p := isDottedChar) (by decide) (call.name_dotted c hc)

theorem type_balanced : IsBalanced true call.type :=
  call.name_balanced.append (balanced_inAngles call.typeArguments_fill)

/-- Inside parentheses the numbers of the list reader come back, but for the angle brackets. -/
theorem run_arguments (around : Nat) :
    ({ depth := 1, angles := around } : Nesting).Keeps true call.arguments ∧
      ∃ dash, Nesting.run true { depth := 1, angles := around } call.arguments =
        { depth := 1, angles := call.leaves around, afterDash := dash } := by
  obtain ⟨dash, hrun⟩ := call.arguments_matched.exists_run?
  obtain ⟨inner, hinner, hinside⟩ :=
    Opened.run?_inside (s := {}) [] ['('] hrun (by simp)
  obtain rfl : inner = [] := by simpa using hinner.symm
  have hfollows : Nesting.Follows { depth := 1, angles := around } { brackets := ['('] } :=
    ⟨rfl, rfl, rfl⟩
  have hend : (Nesting.run true { depth := 1, angles := around } call.arguments).Follows _ :=
    hfollows.run hinside
  refine ⟨hfollows.keeps hinside rfl, dash, ?_⟩
  rw [leaves]
  generalize Nesting.run true { depth := 1, angles := around } call.arguments = n at hend ⊢
  obtain ⟨hdepth, hliteral, hdash⟩ := hend
  cases n
  simp_all [Opened.depth]

/-- A call keeps together, and leaves open the angle brackets that its arguments leave open. -/
theorem run_text (around : Nat) :
    ({ angles := around } : Nesting).Keeps true call.text ∧
      Nesting.run true { angles := around } call.text = { angles := call.leaves around } := by
  have hgap : call.gap.all isPlain = true :=
    List.all_eq_true.mpr fun c hc => isPlain_of_class (p := isBlank) rfl
      (List.all_eq_true.mp call.gap_blank c hc)
  obtain ⟨hkeeps, dash, hrun⟩ :=
    ((IsBalanced.of_isPlain hgap).append call.type_balanced).run_true around
  have hopen : Nesting.step true { angles := around, afterDash := dash } '(' =
      { depth := 1, angles := around } := by
    simp [Nesting.step, LiteralState.step, isQuote]
  obtain ⟨hinside, dash', hleaves⟩ := call.run_arguments around
  have hopened : Nesting.run true { angles := around } call.opened =
      { depth := 1, angles := around } := by
    rw [opened, Nesting.run_append, hrun, Nesting.run_cons, Nesting.run_nil, hopen]
  rw [text, Nesting.run_append, Nesting.run_append, Nesting.keeps_append, Nesting.keeps_append,
    hopened, hleaves]
  refine ⟨⟨?_, hinside, rfl, trivial⟩, ?_⟩
  · rw [opened, Nesting.keeps_append, hrun]
    exact ⟨hkeeps, rfl, trivial⟩
  · simp [Nesting.run_cons, Nesting.step, LiteralState.step, isQuote]

theorem leaves_zero : call.leaves 0 = openAngles call.arguments := by
  have hangles : ∀ (cs : List Char) (m n : Nesting), m.literal = n.literal →
      m.afterDash = n.afterDash → m.angles = n.angles →
      (m.run true cs).angles = (n.run true cs).angles := by
    intro cs
    induction cs with
    | nil => exact fun _ _ _ _ h => h
    | cons c cs ih =>
      intro m n hliteral hdash hangles
      refine ih _ _ ?_ ?_ ?_
      · rw [Nesting.step_literal, Nesting.step_literal, hliteral]
      · rw [Nesting.step_afterDash, Nesting.step_afterDash]
      · rw [Nesting.step_angles, Nesting.step_angles, hliteral, hdash, hangles]
  exact hangles call.arguments _ _ rfl rfl rfl

end SupertypeCall

/-! ## The scan for the end of the list -/

/-- A text whose blanks go up to something solid is blank up to there. -/
theorem isAllBlank_of_trimStart_append {as bs : List Char} (h : trimStart (as ++ bs) = bs) :
    isAllBlank as = true := by
  induction as with
  | nil => rfl
  | cons a as ih =>
    cases ha : isBlank a with
    | true =>
      rw [List.cons_append, trimStart_cons_of_blank ha] at h
      rw [isAllBlank, List.all_cons, ha]
      exact ih h
    | false =>
      rw [List.cons_append, trimStart_eq_self (by simpa using ha)] at h
      have hlength := congrArg List.length h
      simp at hlength
      omega

namespace SupertypeState

/-- The scan of a list goes on up to the brace behind it, and no bracket is open there. -/
def ReachesBrace : SupertypeState → List Char → Prop
  | s, [] => s.depth = 0
  | s, c :: cs => s.endsBefore c (cs ++ ['{']) = false ∧ ReachesBrace (s.step c) cs

instance : (s : SupertypeState) → (cs : List Char) → Decidable (s.ReachesBrace cs)
  | s, [] => inferInstanceAs (Decidable (s.depth = 0))
  | s, c :: cs =>
    have := instDecidableReachesBrace (s.step c) cs
    inferInstanceAs (Decidable (s.endsBefore c (cs ++ ['{']) = false ∧ ReachesBrace (s.step c) cs))

/-- What stands behind the brace does not matter. -/
theorem endsBefore_append (s : SupertypeState) (c : Char) (cs rest : List Char) :
    s.endsBefore c (cs ++ '{' :: rest) = s.endsBefore c (cs ++ ['{']) := by
  have hhead : (trimStart (cs ++ '{' :: rest)).head? = (trimStart (cs ++ ['{'])).head? := by
    cases hcs : isAllBlank cs with
    | true =>
      rw [trimStart_append_of_blank hcs, trimStart_append_of_blank hcs,
        trimStart_eq_self (by simp; decide), trimStart_eq_self (by simp; decide)]
      rfl
    | false =>
      have hsolid : trimStart cs ≠ [] := fun hnil => by simp [trimStart_eq_nil_iff.mp hnil] at hcs
      rw [trimStart_append_of_solid hcs, trimStart_append_of_solid hcs,
        List.head?_append_of_ne_nil _ hsolid, List.head?_append_of_ne_nil _ hsolid]
  rw [endsBefore, endsBefore, hhead]

/-- Right before the brace the scan does not end at a line break. -/
theorem endsBefore_of_blank {s : SupertypeState} {c : Char} {cs : List Char} (hc : isBlank c = true)
    (hcs : isAllBlank cs = true) : s.endsBefore c (cs ++ ['{']) = false := by
  have hne : c ≠ '{' := by
    rintro rfl
    exact absurd hc (by decide)
  have hhead : trimStart (cs ++ ['{']) = ['{'] := by
    rw [trimStart_append_of_blank hcs]
    rfl
  simp [endsBefore, hne, hhead]

end SupertypeState

section Scan

variable {s : SupertypeState} {cs : List Char}

theorem supertypeStretch_of_reachesBrace (h : s.ReachesBrace cs) (rest : List Char) :
    supertypeStretch s (cs ++ '{' :: rest) = (cs, '{' :: rest) := by
  induction cs generalizing s with
  | nil =>
    rw [SupertypeState.ReachesBrace] at h
    simp [supertypeStretch, SupertypeState.endsBefore, h]
  | cons c cs ih =>
    obtain ⟨hgoes, hrest⟩ := h
    rw [List.cons_append, supertypeStretch, s.endsBefore_append, hgoes, ih hrest]
    rfl

/-- A scan that leaves the body behind has come to its brace: before the list, it would leave some
of the list, and from behind the brace there is no way back. -/
theorem reachesBrace_of_supertypeStretch (rest : List Char)
    (h : trimStart (supertypeStretch s (cs ++ '{' :: rest)).2 = '{' :: rest) :
    s.ReachesBrace cs := by
  induction cs generalizing s with
  | nil =>
    rw [List.nil_append, supertypeStretch] at h
    split_ifs at h with hstop
    · simp only [SupertypeState.endsBefore, Bool.and_eq_true, beq_iff_eq] at hstop
      exact hstop.1
    · have hlength := congrArg List.length h
      have htrim := ((trimStart_suffix _).trans
        (supertypeStretch_suffix (s.step '{') rest)).length_le
      simp only [List.length_cons] at hlength
      omega
  | cons c cs ih =>
    rw [List.cons_append, supertypeStretch, s.endsBefore_append] at h
    cases hstop : s.endsBefore c (cs ++ ['{']) with
    | true =>
      rw [hstop, if_pos rfl] at h
      have hblank : isAllBlank (c :: cs) = true := isAllBlank_of_trimStart_append h
      rw [isAllBlank_cons] at hblank
      rw [SupertypeState.endsBefore_of_blank hblank.1 hblank.2] at hstop
      cases hstop
    | false =>
      rw [hstop] at h
      exact ⟨hstop, ih h⟩

end Scan

/-! ## The cut at the commas -/

/-- Calls with a comma behind each. -/
def joined (calls : List SupertypeCall) : List Char :=
  calls.flatMap fun call => call.text ++ [',']

section Cut

variable {calls : List SupertypeCall} {last : List Char}

theorem intercalate_joined (calls : List SupertypeCall) (last : List Char) :
    [','].intercalate (calls.map SupertypeCall.text ++ [last]) = joined calls ++ last := by
  induction calls with
  | nil => simp [joined]
  | cons call calls ih =>
    obtain ⟨next, others, hothers⟩ := List.exists_cons_of_ne_nil
      (show calls.map SupertypeCall.text ++ [last] ≠ [] by simp)
    rw [List.map_cons, List.cons_append, hothers, List.intercalate_cons_cons, ← hothers, ih]
    simp [joined]

/-- Behind a call the list is cut at the comma, unless an angle bracket is open there. -/
theorem cutFrom_joined_cons (call : SupertypeCall) (calls : List SupertypeCall) (last : List Char)
    (around : Nat) : cutFrom true { angles := around } (joined (call :: calls) ++ last) =
      if call.leaves around = 0 then call.text :: cutFrom true {} (joined calls ++ last)
      else (cutFrom true { angles := call.leaves around } (joined calls ++ last)).modifyHead
        ((call.text ++ [',']) ++ ·) := by
  obtain ⟨hkeeps, hrun⟩ := call.run_text around
  have hlist : joined (call :: calls) ++ last = call.text ++ ',' :: (joined calls ++ last) := by
    simp [joined]
  rw [hlist]
  split_ifs with hclosed
  · rw [hclosed] at hrun
    exact cutFrom_append_comma hkeeps hrun _
  · have hcomma : ({ angles := call.leaves around } : Nesting).separates ',' = false := by
      simp [Nesting.separates, hclosed]
    have hstep : Nesting.step true { angles := call.leaves around } ',' =
        { angles := call.leaves around } := by
      simp [Nesting.step, LiteralState.step, isQuote]
    rw [cutFrom_append hkeeps, hrun, cutFrom_cons_of_keeps hcomma, hstep, List.modifyHead_modifyHead]
    simp [Function.comp_def]

/-- Calls that leave no angle bracket open are cut at the commas behind them. -/
theorem cutFrom_joined (h : ∀ call ∈ calls, openAngles call.arguments = 0) (last : List Char) :
    cutFrom true {} (joined calls ++ last) =
      calls.map SupertypeCall.text ++ cutFrom true {} last := by
  induction calls with
  | nil => rfl
  | cons call calls ih =>
    obtain ⟨hcall, hcalls⟩ := List.forall_mem_cons.mp h
    refine (cutFrom_joined_cons call calls last 0).trans ?_
    rw [if_pos (call.leaves_zero.trans hcall), ih hcalls]
    rfl

/-- There is at most one piece for each call, and one for the rest of the list. -/
theorem length_cutFrom_joined_le (hlast : ∀ around, ({ angles := around } : Nesting).Keeps true last)
    (calls : List SupertypeCall) (around : Nat) :
    (cutFrom true { angles := around } (joined calls ++ last)).length ≤ calls.length + 1 := by
  induction calls generalizing around with
  | nil => simp [joined, cutFrom_of_keeps (hlast around)]
  | cons call calls ih =>
    rw [cutFrom_joined_cons]
    split_ifs
    · simpa using ih 0
    · rw [List.length_modifyHead, List.length_cons]
      exact Nat.le_succ_of_le (ih (call.leaves around))

/-- There are that many only if no call leaves an angle bracket open. -/
theorem closed_of_length_cutFrom_joined
    (hlast : ∀ around, ({ angles := around } : Nesting).Keeps true last)
    (h : (cutFrom true {} (joined calls ++ last)).length = calls.length + 1) :
    ∀ call ∈ calls, openAngles call.arguments = 0 := by
  induction calls with
  | nil => simp
  | cons call calls ih =>
    have hcut := cutFrom_joined_cons call calls last 0
    split_ifs at hcut with hclosed
    · rw [hcut, List.length_cons, List.length_cons, Nat.add_right_cancel_iff] at h
      exact List.forall_mem_cons.mpr ⟨call.leaves_zero.symm.trans hclosed, ih h⟩
    · have hshort := length_cutFrom_joined_le hlast calls (call.leaves 0)
      rw [hcut, List.length_modifyHead, List.length_cons] at h
      omega

end Cut

/-! ## The type before a call -/

theorem beforeCall_isPrefix (angles : Nat) (dash : Bool) (cs : List Char) :
    beforeCall angles dash cs <+: cs := by
  fun_induction beforeCall angles dash cs with
  | case1 => exact List.prefix_refl _
  | case2 => exact List.nil_prefix
  | case3 angles dash c rest hgoes angles' ih => exact (List.prefix_cons_inj c).mpr ih

/-- More text behind only matters where all the text is taken. -/
theorem beforeCall_append_cases (angles : Nat) (dash : Bool) (as : List Char) :
    (beforeCall angles dash as ≠ as ∧
      ∀ bs, beforeCall angles dash (as ++ bs) = beforeCall angles dash as) ∨
    (beforeCall angles dash as = as ∧ ∀ bs, as <+: beforeCall angles dash (as ++ bs)) := by
  induction as generalizing angles dash with
  | nil => exact .inr ⟨rfl, fun bs => List.nil_prefix⟩
  | cons a as ih =>
    simp only [List.cons_append, beforeCall]
    by_cases hstop : a = '(' ∧ angles = 0
    · simp [hstop]
    · simp only [if_neg hstop]
      rcases ih (if a = '<' then angles + 1 else if a = '>' ∧ ¬dash then angles - 1 else angles)
          (a == '-') with ⟨hne, hgo⟩ | ⟨heq, hgo⟩
      · exact .inl ⟨fun h => hne (List.cons.inj h).2, fun bs => congrArg (a :: ·) (hgo bs)⟩
      · exact .inr ⟨congrArg (a :: ·) heq, fun bs => (List.prefix_cons_inj a).mpr (hgo bs)⟩

namespace SupertypeCall

/-- The readers of entries know the type: it holds no ` by `, and no parenthesis outside the angle
brackets that they count. -/
structure Named (call : SupertypeCall) : Prop where
  no_by : ¬" by ".toList <:+: call.type
  no_call : beforeCall 0 false (call.type ++ ['(']) = call.type

instance (call : SupertypeCall) : Decidable call.Named :=
  decidable_of_iff (¬" by ".toList <:+: call.type ∧
      beforeCall 0 false (call.type ++ ['(']) = call.type)
    ⟨fun h => ⟨h.1, h.2⟩, fun h => ⟨h.no_by, h.no_call⟩⟩

variable (call : SupertypeCall)

theorem exists_trim_opened (more : List Char) :
    ∃ left, trim (call.opened ++ more) = call.type ++ '(' :: left := by
  refine ⟨trimEnd more, ?_⟩
  rw [opened, List.append_assoc, List.append_assoc, trim, trimStart_append_of_blank call.gap_blank,
    call.type_trimmed.trimStart_append]
  exact trimEnd_append_cons (by decide) _ _

theorem exists_trim_call (more : List Char) :
    ∃ left, trim (call.type ++ '(' :: more) = call.type ++ '(' :: left := by
  refine ⟨trimEnd more, ?_⟩
  rw [trim, call.type_trimmed.trimStart_append]
  exact trimEnd_append_cons (by decide) _ _

/-- The type is found before the call, whatever the arguments are, exactly if the readers know
it. -/
theorem supertypeName_eq_iff (more : List Char) :
    supertypeName (trim (call.opened ++ more)) = call.type ↔ call.Named := by
  obtain ⟨left, hleft⟩ := call.exists_trim_opened more
  rw [hleft, supertypeName]
  by_cases hby : " by ".toList <:+: call.type
  · have hshort := length_beforeText_le hby ('(' :: left)
    have htrim := length_trim_le (beforeText " by ".toList (call.type ++ '(' :: left))
    have hstart := (beforeCall_isPrefix 0 false
      (trim (beforeText " by ".toList (call.type ++ '(' :: left)))).length_le
    have hlast := length_trim_le (beforeCall 0 false
      (trim (beforeText " by ".toList (call.type ++ '(' :: left))))
    have hfour : " by ".toList.length = 4 := rfl
    refine ⟨fun h => ?_, fun h => absurd hby h.no_by⟩
    rw [h] at hlast
    omega
  · rw [beforeText_append_cons (by decide) hby]
    obtain ⟨rest, hrest⟩ := call.exists_trim_call (beforeText " by ".toList left)
    have hlist : call.type ++ '(' :: rest = call.type ++ ['('] ++ rest := by simp
    rw [hrest, hlist]
    rcases beforeCall_append_cases 0 false (call.type ++ ['(']) with ⟨hstop, hgo⟩ | ⟨hall, hgo⟩
    · rw [hgo]
      have hinside : beforeCall 0 false (call.type ++ ['(']) <+: call.type :=
        (List.prefix_concat_iff.mp (beforeCall_isPrefix _ _ _)).resolve_left hstop
      constructor
      · intro h
        have hshort := length_trim_le (beforeCall 0 false (call.type ++ ['(']))
        rw [h] at hshort
        exact ⟨hby, hinside.eq_of_length_le hshort⟩
      · intro h
        rw [h.no_call, call.type_trimmed.trim_eq]
    · have hlong : ¬call.type ++ ['('] = call.type := by simp
      constructor
      · intro h
        obtain ⟨more', hmore⟩ := hgo rest
        obtain ⟨left', hleft'⟩ := call.exists_trim_call more'
        rw [← hmore, List.append_assoc, List.singleton_append, hleft'] at h
        simp at h
      · exact fun h => absurd (hall.symm.trans h.no_call) hlong

end SupertypeCall

/-! ## The names in a list -/

/-- A clause is cut off at a blank. -/
theorem exists_of_dropWhere (cs : List Char) : ∃ clause, cs = dropWhere cs ++ clause ∧
    ∀ c ∈ clause.head?, c ≠ '(' := by
  have hcut : ∀ {needle : List Char}, (∀ c ∈ needle.head?, c ≠ '(') → needle ≠ [] →
      ∀ {before after : List Char}, splitAtText needle cs = some (before, after) →
        ∃ clause, cs = before ++ clause ∧ ∀ c ∈ clause.head?, c ≠ '(' := by
    intro needle hhead hne before after h
    refine ⟨needle ++ after, by rw [← List.append_assoc]; exact splitAtText_eq_some h, ?_⟩
    rwa [List.head?_append_of_ne_nil _ hne]
  rw [dropWhere]
  split
  · next h => exact hcut (by decide) (by decide) h
  · rw [beforeText]
    split
    · next h => exact hcut (by decide) (by decide) h
    · exact ⟨[], by simp, by simp⟩

section Names

variable {init : List SupertypeCall} {last : SupertypeCall} {gap : List Char}

theorem keeps_last (hgap : isAllBlank gap = true) (around : Nat) :
    ({ angles := around } : Nesting).Keeps true (last.text ++ gap) :=
  Nesting.keeps_append.mpr ⟨(last.run_text around).1, keeps_of_blank hgap _⟩

/-- The names in a list, before it is known how it is cut. -/
theorem supertypeNames_eq (cs : List Char) : supertypeNames cs =
    ((dropEmptyLast ((cutFrom true {} (dropWhere cs)).map trim)).map supertypeName).filter
      (!·.isEmpty) := by
  rw [supertypeNames, topLevelParts_trim, topLevelParts]

/-- Where the cut finds the calls, and the types before them, the names are the types. -/
theorem supertypeNames_of_legible (hgap : isAllBlank gap = true)
    (hclosed : ∀ call ∈ init, openAngles call.arguments = 0)
    (hnamed : ∀ call ∈ init ++ [last], call.Named)
    (hreached : joined init ++ last.opened <+: dropWhere (joined init ++ (last.text ++ gap))) :
    supertypeNames (joined init ++ (last.text ++ gap)) =
      (init ++ [last]).map SupertypeCall.type := by
  obtain ⟨more, hmore⟩ := hreached
  obtain ⟨clause, hclause, -⟩ := exists_of_dropWhere (joined init ++ (last.text ++ gap))
  have htail : last.opened ++ more ++ clause = last.text ++ gap := by
    rw [← hmore, List.append_assoc, List.append_assoc, List.append_cancel_left_eq] at hclause
    rw [hclause, List.append_assoc]
  have hkeeps : ({} : Nesting).Keeps true (last.opened ++ more) :=
    (Nesting.keeps_append.mp (htail ▸ keeps_last hgap 0)).1
  have hcut : cutFrom true {} (dropWhere (joined init ++ (last.text ++ gap))) =
      init.map SupertypeCall.text ++ [last.opened ++ more] := by
    rw [← hmore, List.append_assoc, cutFrom_joined hclosed, cutFrom_of_keeps hkeeps]
  have hsolid : ∀ (call : SupertypeCall) (more : List Char), trim (call.opened ++ more) ≠ [] := by
    intro call more hnil
    obtain ⟨left, hleft⟩ := call.exists_trim_opened more
    simp [hleft] at hnil
  have hnames : ((init.map SupertypeCall.text ++ [last.opened ++ more]).map trim).map
      supertypeName = (init ++ [last]).map SupertypeCall.type := by
    simp only [List.map_append, List.map_map, List.map_cons, List.map_nil]
    congr 1
    · refine List.map_congr_left fun call hcall => ?_
      exact (call.supertypeName_eq_iff _).mpr (hnamed call (by simp [hcall]))
    · exact congrArg (· :: []) ((last.supertypeName_eq_iff more).mpr (hnamed last (by simp)))
  rw [supertypeNames_eq, hcut, dropEmptyLast_eq_self, hnames, List.filter_eq_self]
  · exact List.forall_mem_map.mpr fun call _ => by simp [call.type_trimmed.ne_nil]
  · simp only [List.map_append, List.mem_append, List.mem_map]
    rintro piece (⟨_, ⟨call, -, rfl⟩, rfl⟩ | ⟨_, hlast, rfl⟩)
    · exact hsolid call _
    · rw [List.mem_singleton.mp hlast]
      exact hsolid last more

theorem length_supertypeName_le (entry : List Char) :
    (supertypeName entry).length ≤ entry.length := by
  have hbefore : (beforeText " by ".toList entry).length ≤ entry.length := by
    rw [beforeText]
    split
    · next h => rw [splitAtText_eq_some h]; simp
    · exact Nat.le_refl _
  calc (supertypeName entry).length
      ≤ (beforeCall 0 false (trim (beforeText " by ".toList entry))).length := length_trim_le _
    _ ≤ (trim (beforeText " by ".toList entry)).length := (beforeCall_isPrefix _ _ _).length_le
    _ ≤ (beforeText " by ".toList entry).length := length_trim_le _
    _ ≤ entry.length := hbefore

/-- A piece that ends before its parenthesis gives the type only if it ends right there. -/
theorem eq_of_prefix_of_supertypeName {call : SupertypeCall} {piece : List Char}
    (hstart : piece <+: call.gap ++ call.type)
    (h : supertypeName (trim piece) = call.type) : piece = call.gap ++ call.type := by
  have hlength := length_supertypeName_le (trim piece)
  rw [h] at hlength
  rcases List.prefix_or_prefix_of_prefix hstart (List.prefix_append call.gap call.type) with
    ⟨more, hmore⟩ | ⟨rest, rfl⟩
  · have hblank : isAllBlank piece = true := by
      have hgap := call.gap_blank
      rw [← hmore, isAllBlank, List.all_append, Bool.and_eq_true] at hgap
      exact hgap.1
    rw [trim, trimStart_eq_nil_iff.mpr hblank] at hlength
    exact absurd (List.length_eq_zero_iff.mp (Nat.le_zero.mp hlength)) call.type_trimmed.ne_nil
  · rw [List.prefix_append_right_inj] at hstart
    have hrest : (trim (call.gap ++ rest)).length ≤ rest.length := by
      rw [trim, trimStart_append_of_blank call.gap_blank]
      exact length_trim_le rest
    rw [hstart.eq_of_length_le (hlength.trans hrest)]

/-- If the names are the types, the list has been cut behind each call, and of each piece the type
has been found. -/
theorem exists_piece_of_supertypeNames (hgap : isAllBlank gap = true)
    (h : supertypeNames (joined init ++ (last.text ++ gap)) =
      (init ++ [last]).map SupertypeCall.type) {clause : List Char}
    (hclause : joined init ++ (last.text ++ gap) =
      dropWhere (joined init ++ (last.text ++ gap)) ++ clause) :
    (∀ call ∈ init, openAngles call.arguments = 0 ∧ call.Named) ∧
      ∃ piece, dropWhere (joined init ++ (last.text ++ gap)) = joined init ++ piece ∧
        piece ++ clause = last.text ++ gap ∧ supertypeName (trim piece) = last.type := by
  rw [supertypeNames_eq] at h
  generalize dropWhere (joined init ++ (last.text ++ gap)) = kept at h hclause ⊢
  obtain ⟨pieces, piece, hkept, hall⟩ := exists_cutFrom_append true {} kept clause
  rw [← hclause] at hall
  -- No step adds names, so that there have to be as many pieces as there are calls.
  have hsub := (List.filter_sublist (p := fun name : List Char => !name.isEmpty)
    (l := (dropEmptyLast ((cutFrom true {} kept).map trim)).map supertypeName)).trans
      ((dropEmptyLast_sublist _).map supertypeName)
  rw [h] at hsub
  have hfew := hsub.length_le
  have hkeeps : ∀ around, ({ angles := around } : Nesting).Keeps true (last.text ++ gap) :=
    keeps_last hgap
  have hmany := length_cutFrom_joined_le hkeeps init 0
  have hrest : 0 < (cutFrom true (Nesting.run true {} kept) clause).length :=
    List.length_pos_of_ne_nil cutFrom_ne_nil
  simp only [hkept, List.length_map, List.length_append, List.length_singleton] at hfew
  simp only [hall, List.length_append, List.length_modifyHead] at hmany
  have hclosed : ∀ call ∈ init, openAngles call.arguments = 0 := by
    refine closed_of_length_cutFrom_joined hkeeps ?_
    rw [hall, List.length_append, List.length_modifyHead]
    omega
  obtain ⟨rest, hone⟩ : ∃ rest, cutFrom true (Nesting.run true {} kept) clause = [rest] :=
    List.length_eq_one_iff.mp (by omega)
  rw [cutFrom_joined hclosed, cutFrom_of_keeps (hkeeps 0), hone, List.modifyHead_cons]
    at hall
  obtain ⟨hpieces, hlast⟩ := List.append_inj' hall (by simp)
  rw [← hpieces] at hkept
  have hpiece : kept = joined init ++ piece := by
    rw [← intercalate_joined, ← hkept, intercalate_cutFrom]
  have hnames := hsub.eq_of_length (by simp [hkept])
  rw [hkept] at hnames
  simp only [List.map_append, List.map_map, List.map_cons, List.map_nil] at hnames
  obtain ⟨hinit, hend⟩ := List.append_inj' hnames rfl
  refine ⟨fun call hcall => ⟨hclosed call hcall, ?_⟩, piece, hpiece, ?_, (List.cons.inj hend).1.symm⟩
  · exact (call.supertypeName_eq_iff _).mp (List.map_inj_left.mp hinit call hcall).symm
  · rwa [hpiece, List.append_assoc, List.append_cancel_left_eq, eq_comm] at hclause

/-- The names are the types exactly if no call but the last leaves an angle bracket open, the
readers of entries know each type, and no clause is found before the arguments of the last call. -/
theorem supertypeNames_eq_iff (hgap : isAllBlank gap = true) :
    supertypeNames (joined init ++ (last.text ++ gap)) =
        (init ++ [last]).map SupertypeCall.type ↔
      (∀ call ∈ init, openAngles call.arguments = 0) ∧ (∀ call ∈ init ++ [last], call.Named) ∧
        joined init ++ last.opened <+: dropWhere (joined init ++ (last.text ++ gap)) := by
  refine ⟨fun h => ?_, fun h => supertypeNames_of_legible hgap h.1 h.2.1 h.2.2⟩
  obtain ⟨clause, hclause, hhead⟩ := exists_of_dropWhere (joined init ++ (last.text ++ gap))
  obtain ⟨hinit, piece, hkept, hpiece, hname⟩ := exists_piece_of_supertypeNames hgap h hclause
  have hreached : last.opened <+: piece := by
    rw [SupertypeCall.text, List.append_assoc] at hpiece
    rcases List.prefix_or_prefix_of_prefix ⟨clause, hpiece⟩
      (List.prefix_append last.opened (last.arguments ++ [')'] ++ gap)) with hshort | hlong
    · rcases List.prefix_concat_iff.mp hshort with rfl | hshort
      · exact List.prefix_refl _
      · obtain rfl := eq_of_prefix_of_supertypeName hshort hname
        rw [SupertypeCall.opened, List.append_assoc _ ['('], List.append_cancel_left_eq] at hpiece
        exact absurd rfl (hhead '(' (by simp [hpiece]))
    · exact hlong
  obtain ⟨more, rfl⟩ := hreached
  refine ⟨fun call hcall => (hinit call hcall).1, ?_, ?_⟩
  · rw [List.forall_mem_append, List.forall_mem_singleton]
    exact ⟨fun call hcall => (hinit call hcall).2, (last.supertypeName_eq_iff more).mp hname⟩
  · rw [hkept, List.prefix_append_right_inj]
    exact List.prefix_append _ _

end Names

end ComponentWiring.Source
