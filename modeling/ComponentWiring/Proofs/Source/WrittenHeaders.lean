import ComponentWiring.Proofs.Source.SupertypeLists

/-!
Headers of classes as they are written: type parameters, a primary constructor, supertypes with
their arguments and a body. Such a header is read to its end, with its parameters, its supertypes
and its body in place, exactly if it is `Legible`: `Header.read_shows_iff`. What makes a header
illegible is that the readers of its parts do not agree about literals, comparisons and arrows.
-/

namespace ComponentWiring.Source

open Text

/-- A class header as it is written, from behind the name to the end of the body. -/
structure WrittenHeader where
  typeParameters : Option (List Char) := none
  parameters : List Char
  beforeColon : List Char := [' ']
  init : List SupertypeCall := []
  last : SupertypeCall
  beforeBody : List Char := [' ']
  body : List Char
  typeParameters_fill : ∀ cs ∈ typeParameters, FillsAngles cs
  parameters_matched : IsMatched false parameters
  beforeColon_blank : isAllBlank beforeColon = true
  beforeBody_blank : isAllBlank beforeBody = true
  body_closed : ClosesBraces body

namespace WrittenHeader

variable (written : WrittenHeader)

/-- The calls of the supertypes. -/
def calls : List SupertypeCall :=
  written.init ++ [written.last]

/-- The text between the colon and the body. -/
def list : List Char :=
  joined written.init ++ (written.last.text ++ written.beforeBody)

/-- The text up to the parameters. -/
def front : List Char :=
  inAngles written.typeParameters ++ ['(']

/-- The text between the parameters and the body. -/
def middle : List Char :=
  ')' :: (written.beforeColon ++ ':' :: (written.list ++ ['{']))

/-- The whole text. -/
def text : List Char :=
  written.front ++ (written.parameters ++ (written.middle ++ (written.body ++ ['}'])))

/-- A header that is read to its end. -/
structure Legible : Prop where
  /-- To the reader of type parameters an arrow closes a bracket. -/
  no_arrow : ∀ cs ∈ written.typeParameters, arrows .code false cs = 0
  /-- To the scan of the list a literal is text like any other. -/
  reached : SupertypeState.ReachesBrace {} written.list
  /-- To the cut of the list a comparison is a bracket. -/
  closed : ∀ call ∈ written.init, openAngles call.arguments = 0
  named : ∀ call ∈ written.calls, call.Named
  /-- The search for a clause goes into the arguments, and into their literals. -/
  no_clause : joined written.init ++ written.last.opened <+: dropWhere written.list

end WrittenHeader

/-- A header that has been read as it is written: the parameters, the supertypes and the body are
those of the text, the parameters and the body at their places. -/
structure Header.Shows (header : Header) (written : WrittenHeader) (offset : Nat) : Prop where
  constructor : ∃ visibility, header.shape =
    .primary ⟨offset + byteLength written.front, written.parameters⟩ visibility
  supertypes : header.supertypes = written.calls.map SupertypeCall.type
  body : header.body = some ⟨offset +
    byteLength (written.front ++ (written.parameters ++ written.middle)), written.body⟩

/-! ## Supertypes and body -/

section Tail

variable (written : WrittenHeader)

/-- The text behind the colon. -/
theorem trimStart_tail (rest : List Char) :
    trimStart (written.beforeColon ++ ':' :: rest) = ':' :: rest := by
  rw [trimStart_append_of_blank written.beforeColon_blank]
  exact trimStart_eq_self (by simp; decide)

/-- If the scan comes to the brace, the supertypes are those of the list, and the body is read. -/
theorem readTail_of_reached (h : SupertypeState.ReachesBrace {} written.list) (header : Header)
    (offset : Nat) (rest : List Char) :
    header.readTail offset (written.beforeColon ++ ':' ::
        (written.list ++ '{' :: (written.body ++ '}' :: rest))) =
      { header with
        supertypes := supertypeNames written.list
        body := some ⟨offset + byteLength (written.beforeColon ++ ':' :: (written.list ++ ['{'])),
          written.body⟩ } := by
  have hbrace : trimStart ('{' :: (written.body ++ '}' :: rest)) =
      '{' :: (written.body ++ '}' :: rest) := trimStart_eq_self (by simp; decide)
  rw [Header.readTail, trimStart_tail]
  simp only [supertypeStretch_of_reachesBrace h, hbrace, written.body_closed.enclosed?]
  congr 3
  simp only [byteLength_append, byteLength_cons, byteLength_nil, show '{'.utf8Size = 1 from rfl]
  omega

/-- If the body is read at its place, the scan has come to the brace. -/
theorem reached_of_readTail {header : Header} {offset : Nat} {rest : List Char}
    (hheader : header.body = none)
    (h : (header.readTail offset (written.beforeColon ++ ':' ::
        (written.list ++ '{' :: (written.body ++ '}' :: rest)))).body =
      some ⟨offset + byteLength (written.beforeColon ++ ':' :: (written.list ++ ['{'])),
        written.body⟩) :
    SupertypeState.ReachesBrace {} written.list := by
  refine reachesBrace_of_supertypeStretch (written.body ++ '}' :: rest) ?_
  obtain ⟨before, hbefore⟩ := (trimStart_suffix _).trans
    (supertypeStretch_suffix {} (written.list ++ '{' :: (written.body ++ '}' :: rest)))
  rw [Header.readTail, trimStart_tail] at h
  simp only at h
  generalize trimStart (supertypeStretch {}
    (written.list ++ '{' :: (written.body ++ '}' :: rest))).2 = left at h hbefore ⊢
  split at h
  · have hlength := congrArg byteLength hbefore
    simp only [Option.some.injEq, Stretch.mk.injEq, byteLength_append, byteLength_cons,
      byteLength_nil, show '{'.utf8Size = 1 from rfl] at h hlength
    exact (append_inj_of_byteLength hbefore (by omega)).2
  · rw [hheader] at h
    cases h

/-- Behind the constructor, supertypes and body are read as they are written exactly if the scan
comes to the brace and the names are found in the list. -/
theorem readTail_eq_iff (header : Header) (hheader : header.body = none) (offset : Nat)
    (rest : List Char) :
    let read := header.readTail offset (written.beforeColon ++ ':' ::
      (written.list ++ '{' :: (written.body ++ '}' :: rest)))
    read.supertypes = written.calls.map SupertypeCall.type ∧
        read.body = some ⟨offset +
          byteLength (written.beforeColon ++ ':' :: (written.list ++ ['{'])), written.body⟩ ↔
      SupertypeState.ReachesBrace {} written.list ∧
        supertypeNames written.list = written.calls.map SupertypeCall.type := by
  constructor
  · rintro ⟨hnames, hbody⟩
    have hreached := reached_of_readTail written hheader hbody
    rw [readTail_of_reached written hreached] at hnames
    exact ⟨hreached, hnames⟩
  · rintro ⟨hreached, hnames⟩
    rw [readTail_of_reached written hreached]
    exact ⟨hnames, rfl⟩

end Tail

/-! ## The whole header -/

namespace WrittenHeader

variable (written : WrittenHeader)

/-- The text from the parenthesis on. -/
def behindTypeParameters (rest : List Char) : List Char :=
  '(' :: (written.parameters ++ ')' :: (written.beforeColon ++ ':' ::
    (written.list ++ '{' :: (written.body ++ '}' :: rest))))

theorem text_append (rest : List Char) :
    written.text ++ rest = inAngles written.typeParameters ++ written.behindTypeParameters rest := by
  simp [text, front, middle, behindTypeParameters]

/-- Behind the type parameters the header is read as it is written, if its list is. -/
theorem readConstructor_shows_iff {header : Header} (hbody : header.body = none) (offset : Nat)
    (rest : List Char) :
    (header.readConstructor (offset + byteLength (inAngles written.typeParameters))
        (written.behindTypeParameters rest)).Shows written offset ↔
      SupertypeState.ReachesBrace {} written.list ∧
        supertypeNames written.list = written.calls.map SupertypeCall.type := by
  have hplace : ∀ tail, offset + byteLength (inAngles written.typeParameters) +
      byteLength ('(' :: (written.parameters ++ ')' :: tail)) - byteLength tail =
        offset + byteLength (written.front ++ (written.parameters ++ [')'])) := by
    intro tail
    simp only [front, byteLength_append, byteLength_cons, byteLength_nil]
    omega
  have hfront : offset + byteLength (inAngles written.typeParameters) + 1 =
      offset + byteLength written.front := by
    simp only [front, byteLength_append, byteLength_cons, byteLength_nil,
      show '('.utf8Size = 1 from rfl]
    omega
  have hbrace : offset + byteLength (written.front ++ (written.parameters ++ written.middle)) =
      offset + byteLength (written.front ++ (written.parameters ++ [')'])) +
        byteLength (written.beforeColon ++ ':' :: (written.list ++ ['{'])) := by
    simp only [middle, byteLength_append, byteLength_cons, byteLength_nil]
    omega
  rw [behindTypeParameters, Header.readConstructor_of_open written.parameters_matched.passesBy,
    hplace, hfront]
  have htail := readTail_eq_iff written { header with
      shape := .primary ⟨offset + byteLength written.front, written.parameters⟩ .everywhere } hbody
    (offset + byteLength (written.front ++ (written.parameters ++ [')']))) rest
  constructor
  · exact fun h => htail.mp ⟨h.supertypes, hbrace ▸ h.body⟩
  · intro h
    obtain ⟨hnames, hbody⟩ := htail.mpr h
    exact ⟨⟨.everywhere, Header.shape_readTail _ _ _⟩, hnames, hbrace ▸ hbody⟩

/-- Type parameters without arrows are passed over. -/
theorem read_of_no_arrow (h : ∀ cs ∈ written.typeParameters, arrows .code false cs = 0)
    (offset : Nat) (rest : List Char) :
    ∃ names, Header.read offset (written.text ++ rest) =
      ({ typeParameters := names } : Header).readConstructor
        (offset + byteLength (inAngles written.typeParameters))
        (written.behindTypeParameters rest) := by
  rw [written.text_append]
  cases htypes : written.typeParameters with
  | none => exact ⟨[], Header.read_open offset _⟩
  | some cs =>
    have hangle : ∀ more, trimStart ('<' :: more) = '<' :: more :=
      fun more => trimStart_eq_self (by simp; decide)
    have hopen : trimStart (written.behindTypeParameters rest) =
        written.behindTypeParameters rest :=
      trimStart_eq_self (by simp [behindTypeParameters]; decide)
    have henclosed := (written.typeParameters_fill cs htypes).1.enclosed?_angles (h cs htypes)
      (written.behindTypeParameters rest)
    refine ⟨typeParameterNames cs, ?_⟩
    simp only [Header.read, inAngles, List.cons_append, List.append_assoc, List.nil_append, hangle,
      henclosed, hopen]
    congr 1
    simp only [byteLength_append, byteLength_cons, byteLength_nil]
    omega

/-- With arrows in the type parameters, no constructor is found at its place: it would have to
follow the bracket that closes them, with the keyword in between. -/
theorem not_shows_of_arrows {cs : List Char} (htypes : written.typeParameters = some cs)
    (harrows : arrows .code false cs ≠ 0) (offset : Nat) (rest : List Char) :
    ¬(Header.read offset (written.text ++ rest)).Shows written offset := by
  rintro ⟨⟨visibility, hshape⟩, -, -⟩
  obtain ⟨before, after, hcs, hcut⟩ :=
    (written.typeParameters_fill cs htypes).1.enclosed?_of_arrows harrows
  have hangle : ∀ more, trimStart ('<' :: more) = '<' :: more :=
    fun more => trimStart_eq_self (by simp; decide)
  -- What is left starts at the latest with the bracket that closes the type parameters.
  have hleft := trimStart_append_cons (c := '>') (by decide) after
    (written.behindTypeParameters rest)
  have hsuffix : trimStart after <:+ cs := by
    rw [hcs, List.append_cons]
    exact (trimStart_suffix after).trans (List.suffix_append _ _)
  generalize trimStart after = left at hleft hsuffix
  rw [written.text_append, htypes] at hshape
  simp only [Header.read, inAngles, List.cons_append, List.append_assoc, List.nil_append, hangle,
    hcut, hleft] at hshape
  rcases Header.readConstructor_cases _ _ _ with
    ⟨front, more, inside, _, _, hfront, hlast, -, h⟩ | h | h
  · rw [h, Header.shape_readTail] at hshape
    simp only [ConstructorForm.primary.injEq, Stretch.mk.injEq, WrittenHeader.front, htypes,
      inAngles] at hshape
    obtain ⟨more', rfl⟩ := hsuffix
    have hlength : byteLength (left ++ ['>']) = byteLength front := by
      have hstart := hshape.1.1
      simp only [byteLength_append, byteLength_cons, byteLength_nil,
        show '('.utf8Size = 1 from rfl] at hstart ⊢
      omega
    rw [List.append_cons] at hfront
    rw [← (append_inj_of_byteLength hfront hlength).1] at hlast
    simp at hlast
  · rw [h] at hshape
    cases hshape
  · rw [h, Header.shape_readTail] at hshape
    cases hshape

end WrittenHeader

/-- A header is read as it is written exactly if it is legible. -/
theorem Header.read_shows_iff (written : WrittenHeader) (offset : Nat) (rest : List Char) :
    (Header.read offset (written.text ++ rest)).Shows written offset ↔ written.Legible := by
  have hnames : supertypeNames written.list = written.calls.map SupertypeCall.type ↔ _ :=
    supertypeNames_eq_iff written.beforeBody_blank
  by_cases harrows : ∀ cs ∈ written.typeParameters, arrows .code false cs = 0
  · obtain ⟨names, hread⟩ := written.read_of_no_arrow harrows offset rest
    rw [hread, written.readConstructor_shows_iff rfl]
    refine ⟨fun ⟨hreached, h⟩ => ?_,
      fun h => ⟨h.reached, hnames.mpr ⟨h.closed, h.named, h.no_clause⟩⟩⟩
    obtain ⟨hclosed, hnamed, hclause⟩ := hnames.mp h
    exact ⟨harrows, hreached, hclosed, hnamed, hclause⟩
  · simp only [not_forall] at harrows
    obtain ⟨cs, htypes, harrows⟩ := harrows
    exact iff_of_false (written.not_shows_of_arrows htypes harrows offset rest)
      fun h => harrows (h.no_arrow cs htypes)

/-- A function type as the bound of a type parameter: what the reader of type parameters leaves is
`Unit>(…`, in which nothing is a constructor, a supertype list or a body. -/
def arrowHeader : WrittenHeader where
  typeParameters := some "T : (Int) -> Unit".toList
  parameters := "val size: Int".toList
  last := {
    gap := [' '], name := "Base".toList, arguments := "size".toList
    gap_blank := isAllBlank_blank, name_ne_nil := by decide, name_dotted := by decide
    typeArguments_fill := by simp, arguments_matched := by decide }
  body := " @ExposeSignal val level: BindableSignal<Int> = bind() ".toList
  typeParameters_fill := by rintro cs ⟨⟩; decide
  parameters_matched := by decide
  beforeColon_blank := by decide
  beforeBody_blank := by decide
  body_closed := by decide

theorem Header.read_arrowHeader :
    arrowHeader.front = "<T : (Int) -> Unit>(".toList ∧
      arrowHeader.middle = ") : Base(size) \x7b".toList ∧
      (Header.read 0 arrowHeader.text).supertypes = [] ∧
      ¬(Header.read 0 arrowHeader.text).Shows arrowHeader 0 := by
  have hnone : (Header.read 0 arrowHeader.text).supertypes = [] := by decide +kernel
  refine ⟨by decide +kernel, by decide +kernel, hnone, fun h => ?_⟩
  have hone := congrArg List.length (hnone.symm.trans h.supertypes)
  simp [WrittenHeader.calls] at hone

/-! ## Plain headers -/

/-- A call whose type and arguments hold no literal, and whose arguments close all brackets with
angle brackets counted. -/
structure SupertypeCall.IsPlain (call : SupertypeCall) : Prop where
  no_literal : ∀ c ∈ call.type ++ call.arguments, isQuote c = false
  no_comparison : IsMatched true call.arguments
  no_by : ¬" by ".toList <:+: call.type

namespace SupertypeState

/-- The scan does not end at a character of the text, whatever follows it. -/
def PassesOver : SupertypeState → List Char → Prop
  | _, [] => True
  | s, c :: cs => (∀ rest, s.endsBefore c rest = false) ∧ PassesOver (s.step c) cs

variable {s : SupertypeState} {as bs cs : List Char}

theorem PassesOver.append (has : s.PassesOver as) (hbs : (s.run as).PassesOver bs) :
    s.PassesOver (as ++ bs) := by
  induction as generalizing s with
  | nil => exact hbs
  | cons a as ih => exact ⟨has.1, ih has.2 hbs⟩

theorem PassesOver.reachesBrace (has : s.PassesOver as) (hbs : (s.run as).ReachesBrace bs) :
    s.ReachesBrace (as ++ bs) := by
  induction as generalizing s with
  | nil => exact hbs
  | cons a as ih => exact ⟨has.1 _, ih has.2 hbs⟩

theorem passesOver_of_solid (h : ∀ c ∈ cs, c ≠ '{' ∧ c ≠ '\n') (s : SupertypeState) :
    s.PassesOver cs := by
  induction cs generalizing s with
  | nil => trivial
  | cons c cs ih =>
    obtain ⟨hc, hcs⟩ := List.forall_mem_cons.mp h
    exact ⟨fun rest => by simp [endsBefore, hc], ih hcs _⟩

/-- Inside a bracket the scan ends nowhere. -/
theorem passesOver_of_matched {o o' : Opened} (inner : List Char)
    (h : Opened.run? true { o with brackets := inner ++ ['|'] } cs = some o')
    (hcode : o.literal = .code) (hquote : ∀ c ∈ cs, isQuote c = false)
    (hdash : s.afterDash = o.afterDash) (around : Nat)
    (hdepth : s.depth = around + (inner ++ ['|']).countP (· != '{')) : s.PassesOver cs := by
  induction cs generalizing s o inner with
  | nil => trivial
  | cons c cs ih =>
    obtain ⟨hc, hcs⟩ := List.forall_mem_cons.mp hquote
    obtain ⟨t, hstep, hrun⟩ := Opened.run?_cons h
    obtain ⟨⟨hliteral, hafter⟩, -⟩ := Opened.step?_cases hstep
    have hnext := depth_step hstep hcode hdash around hdepth
    obtain ⟨inner', hinner, -⟩ := Opened.step?_inside inner ['|'] hstep (by simp)
    obtain ⟨brackets, literal, dash⟩ := t
    subst hinner
    refine ⟨fun rest => ?_, ih (o := ⟨[], literal, dash⟩) inner' hrun ?_ hcs hafter.symm hnext⟩
    · have hinside : s.depth ≠ 0 := by simp [hdepth]
      simp [endsBefore, hinside]
    · exact hliteral.trans (by rw [hcode, LiteralState.step_code_of_not_isQuote hc])

/-- A call can follow: the list is empty so far, or a comma came before. -/
structure Expects (s : SupertypeState) : Prop where
  depth : s.depth = 0
  afterDash : s.afterDash = false
  lastSolid : s.lastSolid = none ∨ s.lastSolid = some ','

theorem Expects.gap (h : s.Expects) (hcs : isAllBlank cs = true) :
    s.PassesOver cs ∧ (s.run cs).Expects := by
  induction cs generalizing s with
  | nil => exact ⟨trivial, h⟩
  | cons c cs ih =>
    rw [isAllBlank_cons] at hcs
    have hnot : ∀ d, isBlank d = false → c ≠ d := by
      rintro d hd rfl
      simp [hcs.1] at hd
    have hstep : (s.step c).Expects := by
      refine ⟨?_, ?_, ?_⟩
      · simp [step, h.depth, hnot '(' rfl, hnot '[' rfl, hnot '<' rfl]
      · simp [step, hnot '-' rfl]
      · simpa [step, hcs.1] using h.lastSolid
    obtain ⟨hpasses, hexpects⟩ := ih hstep hcs.2
    refine ⟨⟨fun rest => ?_, hpasses⟩, hexpects⟩
    rcases h.lastSolid with hsolid | hsolid <;> simp [endsBefore, hnot '{' rfl, hsolid]

/-- The scan passes over text in a bracket, which it closes. -/
theorem passesOver_in_bracket (h : IsMatched true cs) (hquote : ∀ c ∈ cs, isQuote c = false)
    (hdepth : s.depth = 1) (hdash : s.afterDash = false) :
    s.PassesOver cs ∧ (s.run cs).depth = 1 := by
  obtain ⟨dash, hrun⟩ := h.exists_run?
  exact ⟨passesOver_of_matched (o := {}) [] hrun rfl hquote hdash 0 hdepth,
    depth_run hrun rfl hquote hdash 0 hdepth⟩

theorem Expects.type (h : s.Expects) {call : SupertypeCall}
    (hquote : ∀ c ∈ call.type, isQuote c = false) :
    s.PassesOver call.type ∧ (s.run call.type).depth = 0 := by
  obtain ⟨dash, hrun⟩ := call.type_balanced.exists_run?
  refine ⟨?_, depth_run hrun rfl hquote h.afterDash 0 h.depth⟩
  have hsolid : ∀ c ∈ call.name, c ≠ '{' ∧ c ≠ '\n' := by
    refine fun c hc => ⟨?_, ?_⟩ <;> rintro rfl <;> exact absurd (call.name_dotted _ hc) (by decide)
  have hname := passesOver_of_solid hsolid s
  obtain ⟨_, hrun'⟩ := call.name_balanced.exists_run?
  have hzero : (s.run call.name).depth = 0 := depth_run hrun' rfl
    (fun c hc => hquote c (by simp [SupertypeCall.type, hc])) h.afterDash 0 h.depth
  refine hname.append ?_
  cases harguments : call.typeArguments with
  | none => trivial
  | some cs =>
    have hinside := (passesOver_in_bracket (s := (s.run call.name).step '<')
      (call.typeArguments_fill cs harguments).1
      (fun c hc => hquote c (by simp [SupertypeCall.type, harguments, inAngles, hc]))
      (by simp [step, hzero]) (by simp [step])).1
    exact ⟨fun rest => by simp [endsBefore],
      hinside.append ⟨fun rest => by simp [endsBefore], trivial⟩⟩

/-- The scan passes over a plain call, behind which no bracket is open. -/
theorem Expects.text (h : s.Expects) {call : SupertypeCall} (hplain : call.IsPlain) :
    s.PassesOver call.text ∧ (s.run call.text).depth = 0 := by
  have hquote := List.forall_mem_append.mp hplain.no_literal
  obtain ⟨hgap, hexpects⟩ := h.gap call.gap_blank
  obtain ⟨htype, hzero⟩ := hexpects.type hquote.1
  obtain ⟨harguments, hone⟩ := passesOver_in_bracket
    (s := ((s.run call.gap).run call.type).step '(') hplain.no_comparison hquote.2
    (by simp [step, hzero]) (by simp [step])
  have hend : ∀ t : SupertypeState, t.PassesOver [')'] :=
    fun t => ⟨fun rest => by simp [endsBefore], trivial⟩
  have hopened : s.PassesOver call.opened := (hgap.append htype).append (by
    exact ⟨fun rest => by simp [endsBefore], trivial⟩)
  have hrun : s.run call.opened = ((s.run call.gap).run call.type).step '(' := by
    rw [SupertypeCall.opened, run_append, run_append]
    rfl
  refine ⟨hopened.append ?_, ?_⟩
  · rw [hrun]
    exact harguments.append (hend _)
  · rw [SupertypeCall.text, run_append, hrun, run_append]
    have hclose : ∀ t : SupertypeState, (t.step ')').depth = t.depth - 1 := fun t => by simp [step]
    exact (hclose _).trans (by rw [hone])

theorem Expects.joined (h : s.Expects) {calls : List SupertypeCall}
    (hplain : ∀ call ∈ calls, call.IsPlain) :
    s.PassesOver (joined calls) ∧ (s.run (joined calls)).Expects := by
  induction calls generalizing s with
  | nil => exact ⟨trivial, h⟩
  | cons call calls ih =>
    obtain ⟨hcall, hcalls⟩ := List.forall_mem_cons.mp hplain
    obtain ⟨hpasses, hzero⟩ := h.text hcall
    have hnext : ((s.run call.text).step ',').Expects :=
      ⟨by simp [step, hzero], by simp [step], by simp [step, show isBlank ',' = false from rfl]⟩
    obtain ⟨hrest, hexpects⟩ := ih hnext hcalls
    have hlist : Source.joined (call :: calls) = call.text ++ ([','] ++ Source.joined calls) := by
      simp [Source.joined]
    rw [hlist]
    refine ⟨hpasses.append ⟨fun rest => by simp [endsBefore], hrest⟩, ?_⟩
    rw [run_append, run_append]
    exact hexpects

theorem reachesBrace_of_blank (hdepth : s.depth = 0) (hcs : isAllBlank cs = true) :
    s.ReachesBrace cs := by
  induction cs generalizing s with
  | nil => exact hdepth
  | cons c cs ih =>
    rw [isAllBlank_cons] at hcs
    refine ⟨endsBefore_of_blank hcs.1 hcs.2, ih ?_ hcs.2⟩
    have hnot : ∀ d, isBlank d = false → c ≠ d := by
      rintro d hd rfl
      simp [hcs.1] at hd
    simp [step, hdepth, hnot '(' rfl, hnot '[' rfl, hnot '<' rfl]

end SupertypeState

namespace SupertypeCall.IsPlain

variable {call : SupertypeCall}

theorem closed (h : call.IsPlain) : openAngles call.arguments = 0 := by
  obtain ⟨dash, hrun⟩ := h.no_comparison.exists_run?
  have hfollows : Nesting.Follows { depth := 1 } { brackets := ['|'] } := ⟨rfl, rfl, rfl⟩
  rw [← call.leaves_zero]
  exact (hfollows.run_angles hrun 0 rfl).2

theorem named (h : call.IsPlain) : call.Named where
  no_by := h.no_by
  no_call := by
    have hquote : ∀ c ∈ call.type, isQuote c = false :=
      (List.forall_mem_append.mp h.no_literal).1
    obtain ⟨_, hname⟩ := call.name_balanced.exists_run?
    have hgo := beforeCall_append hname rfl
      (fun c hc => hquote c (by simp [SupertypeCall.type, hc])) 0
      (.inr fun hc => absurd (call.name_dotted _ hc) (by decide))
    rw [SupertypeCall.type, List.append_assoc]
    refine (hgo _).trans (congrArg (call.name ++ ·) ?_)
    cases harguments : call.typeArguments with
    | none => simp [inAngles, beforeCall, Opened.angles]
    | some cs =>
      obtain ⟨hmatched, hlast⟩ := call.typeArguments_fill cs harguments
      obtain ⟨dash, hrun⟩ := hmatched.exists_run?
      obtain rfl : dash = false := Opened.afterDash_run? hrun rfl hlast
      have hinside := beforeCall_append hrun rfl
        (fun c hc => hquote c (by simp [SupertypeCall.type, harguments, inAngles, hc])) 1
        (.inl (Nat.le_refl 1)) ['>', '(']
      simpa [inAngles, beforeCall, Opened.angles] using hinside

end SupertypeCall.IsPlain

/-- A header is legible if it has no arrows in its type parameters, plain calls and no clause. -/
theorem WrittenHeader.legible_of_isPlain {written : WrittenHeader}
    (harrows : ∀ cs ∈ written.typeParameters, arrows .code false cs = 0)
    (hplain : ∀ call ∈ written.calls, call.IsPlain)
    (hclause : dropWhere written.list = written.list) : written.Legible := by
  rw [calls, List.forall_mem_append, List.forall_mem_singleton] at hplain
  obtain ⟨hinit, hlast⟩ := hplain
  obtain ⟨hjoined, hexpects⟩ := SupertypeState.Expects.joined (s := {}) ⟨rfl, rfl, .inl rfl⟩ hinit
  obtain ⟨htext, hdepth⟩ := hexpects.text hlast
  refine ⟨harrows, ?_, fun call hcall => (hinit call hcall).closed, ?_, ?_⟩
  · exact hjoined.reachesBrace (htext.reachesBrace
      (SupertypeState.reachesBrace_of_blank hdepth written.beforeBody_blank))
  · rw [calls, List.forall_mem_append, List.forall_mem_singleton]
    exact ⟨fun call hcall => (hinit call hcall).named, hlast.named⟩
  · rw [hclause, list, SupertypeCall.text, List.append_assoc, ← List.append_assoc]
    exact List.prefix_append _ _

end ComponentWiring.Source
