import Mathlib.Data.List.Chain
import ComponentWiring.Proofs.Source.HeaderCases
import ComponentWiring.Proofs.Source.TypeReading

/-!
Headers of classes. A header with a parameter list and a list of calls of supertypes is read into
the list between the parentheses and the types before the calls: `Header.read_eq`.

The supertype list is scanned with counters of its own, which follow the open brackets of a text as
those of the list reader do. That no `where` and no `by` is found in it comes from its blanks, each
of which follows a comma (`Spaced`).
-/

namespace ComponentWiring.Source

open Text TypeExpr

/-! ## Blanks behind commas -/

/-- Every space follows a comma, except at the start. -/
def Spaced (cs : List Char) : Prop :=
  cs.IsChain fun a b => b = ' ' → a = ','

instance (cs : List Char) : Decidable (Spaced cs) :=
  inferInstanceAs (Decidable (cs.IsChain fun a b => b = ' ' → a = ','))

namespace Spaced

variable {as bs cs needle : List Char}

theorem append (has : Spaced as) (hbs : Spaced bs) (hhead : bs.head? ≠ some ' ') :
    Spaced (as ++ bs) := by
  refine List.isChain_append.mpr ⟨has, hbs, fun a _ b hb hspace => ?_⟩
  rw [Option.mem_def.mp hb, hspace] at hhead
  exact absurd rfl hhead

theorem of_not_mem (h : ' ' ∉ cs) : Spaced cs := by
  induction cs with
  | nil => exact .nil
  | cons c cs ih =>
    rw [List.mem_cons, not_or] at h
    refine List.isChain_cons.mpr ⟨fun d hd hspace => ?_, ih h.2⟩
    exact absurd (hspace ▸ List.mem_of_head? hd) h.2

theorem intercalate {parts : List (List Char)} (h : ∀ part ∈ parts, Spaced part)
    (htrimmed : ∀ part ∈ parts, Trimmed part) : Spaced (", ".toList.intercalate parts) := by
  induction parts with
  | nil => exact of_not_mem (by simp)
  | cons part parts ih =>
    obtain ⟨hpart, hparts⟩ := List.forall_mem_cons.mp h
    obtain ⟨-, hts⟩ := List.forall_mem_cons.mp htrimmed
    cases parts with
    | nil => rwa [List.intercalate_singleton]
    | cons next parts =>
      have hnext : Trimmed (", ".toList.intercalate (next :: parts)) :=
        .intercalate (by simp) hts
      have hsolid : (", ".toList.intercalate (next :: parts)).head? ≠ some ' ' :=
        fun hhead => absurd (hnext.head ' ' hhead) (by decide)
      rw [List.intercalate_cons_cons, List.append_assoc]
      exact hpart.append ((show Spaced ", ".toList by decide).append (ih hparts hts) hsolid)
        (by simp)

/-- What has a space behind anything but a comma does not occur. -/
theorem avoids (h : Spaced cs) (hneedle : ¬Spaced needle) : ¬needle <:+: cs :=
  fun hfound => hneedle <| List.IsChain.infix h hfound

end Spaced

/-- The text of a type has blanks only between its arguments. -/
theorem Spelled.spaced {type : TypeExpr} (h : Spelled type) : Spaced type.render.toList := by
  induction h with
  | @intro type verbatim name arguments ih =>
    have hname : Spaced (lastPart type.name).toList := by
      refine .of_not_mem fun hmem => ?_
      exact absurd (name.2 _ hmem) (by decide)
    have harguments : Spaced (argumentText type.arguments) := by
      unfold argumentText
      split_ifs with hempty
      · exact .of_not_mem (by simp)
      · have htrimmed : ∀ text ∈ type.arguments.map (fun type => type.render.toList),
            Trimmed text :=
          List.forall_mem_map.mpr fun a ha => (arguments a ha).trimmed
        have hlist : Trimmed (", ".toList.intercalate
            (type.arguments.map fun type => type.render.toList)) :=
          .intercalate (by simpa using hempty) htrimmed
        have hinside := Spaced.intercalate (List.forall_mem_map.mpr ih) htrimmed
        have hend := hinside.append (show Spaced ['>'] by decide) (by simp)
        have hhead : (", ".toList.intercalate (type.arguments.map fun type => type.render.toList) ++
            ['>']).head? ≠ some ' ' := by
          rw [List.head?_append_of_ne_nil _ hlist.ne_nil]
          exact fun hspace => absurd (hlist.head ' ' hspace) (by decide)
        have hopen : Spaced ['<'] := by decide
        exact hopen.append hend hhead
    rw [toList_render verbatim]
    refine (hname.append harguments ?_).append (.of_not_mem ?_) ?_
    · unfold argumentText
      split_ifs <;> simp
    · cases type.nullable <;> simp [nullMark]
    · cases type.nullable <;> simp [nullMark]

/-! ## The scan of a supertype list -/

namespace SupertypeState

variable {s : SupertypeState} {o o' : Opened} {c : Char} {cs : List Char}

/-- The state behind a text. -/
def run (s : SupertypeState) (cs : List Char) : SupertypeState :=
  cs.foldl step s

theorem run_append (s : SupertypeState) (as bs : List Char) :
    s.run (as ++ bs) = (s.run as).run bs :=
  List.foldl_append

/-- Outside literals, the depth is the number of open brackets other than braces, above those around
the text. -/
theorem depth_step (h : o.step? true c = some o') (hcode : o.literal = .code)
    (hdash : s.afterDash = o.afterDash) (around : Nat)
    (hdepth : s.depth = around + o.brackets.countP (· != '{')) :
    (s.step c).depth = around + o'.brackets.countP (· != '{') := by
  rcases Opened.brackets_of_code h hcode with ⟨hopen, heq⟩ | ⟨opening, heq, hmatch⟩ |
    ⟨hopen, hclose, hangle, heq⟩
  · rcases hopen with rfl | rfl | rfl | ⟨-, rfl⟩ <;> simp [step, hdepth, heq, Nat.add_assoc]
  · rcases hmatch with ⟨rfl, rfl⟩ | ⟨rfl, rfl⟩ | ⟨rfl, rfl⟩ | ⟨-, hhead, rfl, rfl⟩
    · simp [step, hdepth, heq]
    · simp [step, hdepth, heq]
    · simp [step, hdepth, heq]
    · simp [step, hdepth, heq, hdash, hhead]
  · obtain ⟨hless, hgreater⟩ := hangle rfl
    by_cases hc : c = '>'
    · have hhead : s.afterDash = true := hdash.trans (hgreater hc)
      simp [step, hdepth, heq, hc, hhead]
    · simp [step, hdepth, heq, hopen, hclose, hless, hc]

theorem depth_run (h : Opened.run? true o cs = some o') (hcode : o.literal = .code)
    (hquote : ∀ c ∈ cs, isQuote c = false) (hdash : s.afterDash = o.afterDash) (around : Nat)
    (hdepth : s.depth = around + o.brackets.countP (· != '{')) :
    (s.run cs).depth = around + o'.brackets.countP (· != '{') := by
  induction cs generalizing s o with
  | nil =>
    cases h
    exact hdepth
  | cons c cs ih =>
    obtain ⟨t, hstep, hrun⟩ := Opened.run?_cons h
    obtain ⟨⟨hliteral, hafter⟩, -⟩ := Opened.step?_cases hstep
    obtain ⟨hc, hcs⟩ := List.forall_mem_cons.mp hquote
    refine ih hrun ?_ hcs hafter.symm (depth_step hstep hcode hdash around hdepth)
    rw [hliteral, hcode, LiteralState.step_code_of_not_isQuote hc]

end SupertypeState

/-- Only a brace or a line break ends a supertype list. -/
theorem supertypeStretch_append {cs : List Char} (h : ∀ c ∈ cs, c ≠ '{' ∧ c ≠ '\n')
    (s : SupertypeState) (rest : List Char) :
    supertypeStretch s (cs ++ rest) =
      (cs ++ (supertypeStretch (s.run cs) rest).1, (supertypeStretch (s.run cs) rest).2) := by
  induction cs generalizing s with
  | nil => rfl
  | cons c cs ih =>
    obtain ⟨hc, hcs⟩ := List.forall_mem_cons.mp h
    have hgoes : s.endsBefore c (cs ++ rest) = false := by
      simp [SupertypeState.endsBefore, hc]
    rw [List.cons_append, supertypeStretch, if_neg (by simp [hgoes]), ih hcs]
    rfl


/-! ## The call of a supertype -/

/-- A supertype as it is called, without arguments. -/
def callText (type : TypeExpr) : List Char :=
  type.render.toList ++ ['(', ')']

/-- Inside `around` angle brackets no parenthesis opens a call, and outside there is none. -/
theorem beforeCall_append {o o' : Opened} {cs : List Char} (h : Opened.run? true o cs = some o')
    (hcode : o.literal = .code) (hquote : ∀ c ∈ cs, isQuote c = false) (around : Nat)
    (hcall : 1 ≤ around ∨ '(' ∉ cs) (rest : List Char) :
    beforeCall (around + o.angles) o.afterDash (cs ++ rest) =
      cs ++ beforeCall (around + o'.angles) o'.afterDash rest := by
  induction cs generalizing o with
  | nil =>
    cases h
    rfl
  | cons c cs ih =>
    obtain ⟨t, hstep, hrun⟩ := Opened.run?_cons h
    obtain ⟨⟨hliteral, hafter⟩, hbrackets⟩ := Opened.step?_cases hstep
    obtain ⟨hc, hcs⟩ := List.forall_mem_cons.mp hquote
    rw [List.mem_cons, not_or] at hcall
    have hnext := ih hrun (by rw [hliteral, hcode, LiteralState.step_code_of_not_isQuote hc]) hcs
      (hcall.imp_right And.right)
    have hangles : (if c = '<' then around + o.angles + 1
        else if c = '>' ∧ ¬o.afterDash then around + o.angles - 1 else around + o.angles) =
          around + t.angles := by
      have hfollows : Nesting.Follows ⟨o.depth, around + o.angles, o.literal, o.afterDash⟩ o :=
        ⟨rfl, rfl, rfl⟩
      have hcount := hfollows.angles_step hstep rfl
      rw [Nesting.step_angles, if_neg (by simp [hcode])] at hcount
      exact hcount
    have hgoes : ¬(c = '(' ∧ around + o.angles = 0) := by
      rintro ⟨rfl, hzero⟩
      rcases hcall with haround | hcall
      · omega
      · exact hcall.1 rfl
    rw [List.cons_append, beforeCall, if_neg hgoes, hangles, ← hafter]
    exact congrArg (c :: ·) hnext

section Calls

variable {imports : Imports} {locals : List String} {type : TypeExpr} {types : List TypeExpr}

theorem callText_trimmed (h : Readable imports locals type) : Trimmed (callText type) :=
  (show Trimmed ['(', ')'] by decide).append_left h.spelled.trimmed.ne_nil h.spelled.trimmed.head

theorem callText_balanced (h : Readable imports locals type) : IsBalanced true (callText type) :=
  h.spelled.balanced.append (show IsBalanced true ['(', ')'] by decide)

theorem callText_spaced (h : Readable imports locals type) : Spaced (callText type) :=
  h.spelled.spaced.append (by decide) (by simp)

/-- The type before a call. -/
theorem supertypeName_callText (h : Readable imports locals type) :
    supertypeName (callText type) = type.render.toList := by
  obtain ⟨dash, hrun⟩ := h.spelled.balanced.exists_run?
  have hcall := beforeCall_append hrun rfl h.spelled.not_quote 0
    (.inr (h.spelled.not_mem (by decide))) ['(', ')']
  have hbefore : beforeCall 0 false (callText type) = type.render.toList := by
    refine hcall.trans ?_
    rw [beforeCall, if_pos ⟨rfl, rfl⟩, List.append_nil]
  rw [supertypeName, beforeText_eq_self ((callText_spaced h).avoids (by decide)),
    (callText_trimmed h).trim_eq, hbefore, h.spelled.trimmed.trim_eq]

/-- The calls of supertypes, as they follow the colon. -/
def callList (types : List TypeExpr) : List Char :=
  ", ".toList.intercalate (types.map callText)

theorem callList_trimmed (hne : types ≠ []) (h : ∀ type ∈ types, Readable imports locals type) :
    Trimmed (callList types) :=
  Trimmed.intercalate (by simpa using hne)
    (List.forall_mem_map.mpr fun type htype => callText_trimmed (h type htype))

theorem supertypeNames_callList (hne : types ≠ [])
    (h : ∀ type ∈ types, Readable imports locals type) :
    supertypeNames (' ' :: callList types) = types.map fun type => type.render.toList := by
  have htrimmed : ∀ text ∈ types.map callText, Trimmed text :=
    List.forall_mem_map.mpr fun type htype => callText_trimmed (h type htype)
  have hbalanced : ∀ text ∈ types.map callText, IsBalanced true text :=
    List.forall_mem_map.mpr fun type htype => callText_balanced (h type htype)
  have hlist := callList_trimmed hne h
  have hspaced : Spaced (' ' :: callList types) := by
    show Spaced ([' '] ++ callList types)
    refine .append (by decide) (.intercalate ?_ htrimmed) ?_
    · exact List.forall_mem_map.mpr fun type htype => callText_spaced (h type htype)
    · exact fun hspace => absurd (hlist.head ' ' hspace) (by decide)
  have hwhere : dropWhere (' ' :: callList types) = ' ' :: callList types := by
    rw [dropWhere, splitAtText_eq_none (hspaced.avoids (by decide))]
    exact beforeText_eq_self (hspaced.avoids (by decide))
  have hparts : topLevelParts (callList types) = types.map callText :=
    topLevelParts_intercalate hbalanced htrimmed
  have hnames : (types.map callText).map supertypeName =
      types.map fun type => type.render.toList := by
    rw [List.map_map]
    exact List.map_congr_left fun type htype => supertypeName_callText (h type htype)
  rw [supertypeNames, hwhere, trim_cons_of_blank rfl, hlist.trim_eq, hparts, hnames,
    List.filter_eq_self]
  exact List.forall_mem_map.mpr fun type htype => by simp [(h type htype).spelled.trimmed.ne_nil]

/-- A list of calls holds nothing that ends it. -/
theorem mem_callList (h : ∀ type ∈ types, Readable imports locals type) {c : Char}
    (hc : c ∈ callList types) : isTypeChar c = true ∨ c = '(' ∨ c = ')' := by
  rcases mem_of_mem_intercalate hc with hc | ⟨_, htext, hc⟩
  · simp only [String.reduceToList, List.mem_cons, List.not_mem_nil, or_false] at hc
    rcases hc with rfl | rfl <;> decide
  · obtain ⟨type, htype, rfl⟩ := List.mem_map.mp htext
    rw [callText, List.mem_append] at hc
    rcases hc with hc | hc
    · exact .inl ((h type htype).spelled.isTypeChar_of_mem c hc)
    · exact .inr (by simpa using hc)

theorem SupertypeState.depth_callText (h : Readable imports locals type) {s : SupertypeState}
    (hdash : s.afterDash = false) : (s.run (callText type)).depth = s.depth := by
  obtain ⟨dash, hrun⟩ := (callText_balanced h).exists_run?
  have hquote : ∀ c ∈ callText type, isQuote c = false := by
    intro c hc
    rw [callText, List.mem_append] at hc
    rcases hc with hc | hc
    · exact h.spelled.not_quote c hc
    · simp only [List.mem_cons, List.not_mem_nil, or_false] at hc
      rcases hc with rfl | rfl <;> decide
  exact depth_run hrun rfl hquote hdash s.depth rfl

/-- Behind the list no bracket is open. -/
theorem SupertypeState.depth_callList (h : ∀ type ∈ types, Readable imports locals type)
    {s : SupertypeState} (hdash : s.afterDash = false) :
    (s.run (callList types)).depth = s.depth := by
  induction types generalizing s with
  | nil => rfl
  | cons type types ih =>
    obtain ⟨htype, htypes⟩ := List.forall_mem_cons.mp h
    cases types with
    | nil =>
      rw [callList, List.map_singleton, List.intercalate_singleton]
      exact depth_callText htype hdash
    | cons next types =>
      have hlist : callList (type :: next :: types) =
          callText type ++ (", ".toList ++ callList (next :: types)) := by
        unfold callList
        rw [List.map_cons, List.map_cons, List.intercalate_cons_cons, List.append_assoc]
      have hcomma : ((s.run (callText type)).run ", ".toList).depth = s.depth := by
        rw [← depth_callText htype hdash]
        rfl
      rw [hlist, run_append, run_append, ih htypes rfl, hcomma]

theorem callList_eq_concat (hne : types ≠ []) : ∃ front, callList types = front ++ [')'] := by
  induction types with
  | nil => exact absurd rfl hne
  | cons type types ih =>
    cases types with
    | nil => exact ⟨type.render.toList ++ ['('], by simp [callList, callText]⟩
    | cons next types =>
      obtain ⟨front, hfront⟩ := ih (by simp)
      refine ⟨callText type ++ ", ".toList ++ front, ?_⟩
      unfold callList at hfront ⊢
      rw [List.map_cons, List.map_cons, List.intercalate_cons_cons, ← List.map_cons, hfront,
        List.append_assoc _ front]

/-- The list of calls behind a colon reaches to the end of the line. -/
theorem supertypeStretch_callList (hne : types ≠ [])
    (h : ∀ type ∈ types, Readable imports locals type) :
    supertypeStretch {} (' ' :: (callList types ++ ['\n'])) = (' ' :: callList types, ['\n']) := by
  have hgoes : ∀ c ∈ ' ' :: callList types, c ≠ '{' ∧ c ≠ '\n' := by
    refine List.forall_mem_cons.mpr ⟨by decide, fun c hc => ?_⟩
    rcases mem_callList h hc with hchar | rfl | rfl
    · constructor <;> rintro rfl <;> exact absurd hchar (by decide)
    · decide
    · decide
  have hstop : (({} : SupertypeState).run (' ' :: callList types)).endsBefore '\n' [] = true := by
    have hdepth : (({} : SupertypeState).run (' ' :: callList types)).depth = 0 :=
      SupertypeState.depth_callList h (s := SupertypeState.step {} ' ') rfl
    have hlast : (({} : SupertypeState).run (' ' :: callList types)).lastSolid = some ')' := by
      obtain ⟨front, hfront⟩ := callList_eq_concat hne
      rw [hfront, ← List.cons_append, SupertypeState.run_append]
      rfl
    simp [SupertypeState.endsBefore, hdepth, hlast, trimStart]
  have hscan := supertypeStretch_append hgoes {} ['\n']
  rw [supertypeStretch, if_pos hstop, List.append_nil] at hscan
  exact hscan

end Calls

/-! ## The whole header -/

/-- What follows the parentheses of a class with given supertypes. -/
def supertypeClause (types : List TypeExpr) : List Char :=
  if types.isEmpty then [] else " : ".toList ++ callList types

theorem freeOf_supertypeClause {words : List String} (hwords : "" ∉ words) {types : List TypeExpr}
    (h : ∀ type ∈ types, FreeOf words type.render.toList) :
    FreeOf words (supertypeClause types) := by
  have hcalls : FreeOf words (callList types) := by
    induction types with
    | nil => exact freeOf_nil.mpr hwords
    | cons type types ih =>
      obtain ⟨htype, htypes⟩ := List.forall_mem_cons.mp h
      have hend : FreeOf words [')'] :=
        (freeOf_cons (by decide)).mpr ⟨hwords, freeOf_nil.mpr hwords⟩
      have hcall : FreeOf words (callText type) :=
        (freeOf_append_cons (by decide)).mpr ⟨htype, hend⟩
      cases types with
      | nil => rwa [callList, List.map_singleton, List.intercalate_singleton]
      | cons next types =>
        have hrest := (freeOf_cons (c := ' ') (by decide)).mpr ⟨hwords, ih htypes⟩
        have hlist := (freeOf_append_cons (c := ',') (by decide)).mpr ⟨hcall, hrest⟩
        rw [callList, List.map_cons, List.map_cons, List.intercalate_cons_cons, List.append_assoc]
        exact hlist
  unfold supertypeClause
  split_ifs
  · exact freeOf_nil.mpr hwords
  · have hcolon := (freeOf_cons (c := ' ') (by decide)).mpr ⟨hwords, hcalls⟩
    have hblank := (freeOf_cons (c := ':') (by decide)).mpr ⟨hwords, hcolon⟩
    exact (freeOf_cons (c := ' ') (by decide)).mpr ⟨hwords, hblank⟩

theorem readTail_supertypeClause {imports : Imports} {locals : List String} {types : List TypeExpr}
    (h : ∀ type ∈ types, Readable imports locals type) {header : Header}
    (hheader : header.supertypes = []) (offset : Nat) :
    header.readTail offset (supertypeClause types ++ ['\n']) =
      { header with supertypes := types.map fun type => type.render.toList } := by
  have hnone : enclosed? '{' '}' [] = none := rfl
  cases htypes : types with
  | nil =>
    simp [supertypeClause, Header.readTail, trimStart, show isBlank '\n' = true from rfl, ← hheader]
  | cons type rest =>
    have hne : types ≠ [] := by simp [htypes]
    have hclause : trimStart (supertypeClause types ++ ['\n']) =
        ':' :: ' ' :: (callList types ++ ['\n']) := by
      unfold supertypeClause
      rw [if_neg (by simpa using hne)]
      rfl
    rw [← htypes, Header.readTail, hclause]
    simp only [supertypeStretch_callList hne h, supertypeNames_callList hne h]
    rfl

/-- Where neither an annotation nor a word stands, there is no keyword of a constructor. -/
theorem constructorPrefix?_cons {c : Char} (hword : isWordChar c = false) (hat : c ≠ '@')
    (cs : List Char) : constructorPrefix? (c :: cs) = none := by
  have hannotations : annotations (c :: cs) = ([], c :: cs) :=
    annotations_of_head (by simpa using hat)
  have hmodifier : wordOf? constructorModifiers (c :: cs) = none :=
    wordOf?_cons_eq_none (by decide) hword cs
  have hkeyword : dropText? "constructor".toList (c :: cs) = none := by
    rw [dropText?, if_neg]
    intro hprefix
    obtain rfl : 'c' = c := (List.cons_prefix_cons.mp (List.isPrefixOf_iff_prefix.mp hprefix)).1
    cases hword
  unfold constructorPrefix?
  rw [hannotations]
  simp only [hmodifier, hkeyword, Option.map_none]

/-- A body right behind the name leaves the constructor without parameters. -/
theorem Header.shape_read_of_body (offset : Nat) (rest : List Char) :
    (Header.read offset (' ' :: '{' :: rest)).shape = .implicit := by
  have htrim : trimStart (' ' :: '{' :: rest) = '{' :: rest := by
    rw [trimStart_cons_of_blank rfl, trimStart_eq_self (by simp [show isBlank '{' = false from rfl])]
  unfold Header.read
  simp only [htrim]
  split
  · next heq _ => cases heq
  · next heq _ => cases heq
  · simp [readConstructor, constructorPrefix?_cons (c := '{') (by decide) (by decide),
      shape_readTail]

/-- A parenthesis opens the primary constructor. -/
theorem Header.readConstructor_of_open {inside : List Char} (hinside : PassesBy inside)
    (header : Header) (offset : Nat) (rest : List Char) :
    header.readConstructor offset ('(' :: (inside ++ ')' :: rest)) =
      { header with shape := .primary ⟨offset + 1, inside⟩ .everywhere }.readTail
        (offset + byteLength ('(' :: (inside ++ ')' :: rest)) - byteLength rest) rest := by
  rw [readConstructor, constructorPrefix?_cons (by decide) (by decide)]
  simp only [Option.getD_none, hinside.enclosed?, Nat.add_sub_cancel]

/-- Right behind the name a parenthesis needs no type parameters. -/
theorem Header.read_open (offset : Nat) (rest : List Char) :
    Header.read offset ('(' :: rest) = ({} : Header).readConstructor offset ('(' :: rest) := by
  have htrim : trimStart ('(' :: rest) = '(' :: rest :=
    trimStart_eq_self (by simp [show isBlank '(' = false from rfl])
  unfold Header.read
  simp only [htrim]
  split
  · next heq _ => cases heq
  · next heq _ => cases heq
  · rw [Nat.add_sub_cancel]

theorem Header.read_of_open {inside : List Char} (hinside : PassesBy inside) (offset : Nat)
    (rest : List Char) :
    Header.read offset ('(' :: (inside ++ ')' :: rest)) =
      ({ shape := .primary ⟨offset + 1, inside⟩ .everywhere } : Header).readTail
        (offset + byteLength ('(' :: (inside ++ ')' :: rest)) - byteLength rest) rest :=
  (read_open _ _).trans (readConstructor_of_open hinside {} offset rest)

/-- A parameter list and a list of supertype calls are read as such. -/
theorem Header.read_eq {imports : Imports} {locals : List String} {types : List TypeExpr}
    {inside : List Char} (hinside : PassesBy inside)
    (h : ∀ type ∈ types, Readable imports locals type) (offset : Nat) :
    Header.read offset ('(' :: (inside ++ ')' :: (supertypeClause types ++ ['\n']))) =
      { shape := .primary ⟨offset + 1, inside⟩ .everywhere
        supertypes := types.map fun type => type.render.toList } := by
  rw [read_of_open hinside]
  exact readTail_supertypeClause h rfl _

end ComponentWiring.Source
