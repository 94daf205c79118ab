import ComponentWiring.Proofs.Source.ClassHeads
import ComponentWiring.Proofs.Source.Expressions
import ComponentWiring.Proofs.Source.ImportLines
import ComponentWiring.Proofs.Source.ImportTable
import ComponentWiring.Proofs.Source.Masking

/-!
Source files that start with import lines of any form. Such a line is read as one whatever follows,
unless that starts with the word `as` (`importLine?_text`), and no class head starts in the lines.
So the import lines of the file are those at its start and those of the text behind them
(`importLines_masked`), and its class heads are those of the text behind the lines
(`classHeads_masked`).
-/

namespace ComponentWiring.Source

open Text

/-- A text whose first word is not `as` gives no alias to what stands before it. -/
theorem givenName?_eq_none_of_words {cs : List Char}
    (h : (words cs).head? ≠ some "as".toList) : givenName? cs = none := by
  cases hread : givenName? cs with
  | none => rfl
  | some r =>
    obtain ⟨left, hleft, hmore⟩ := Option.bind_eq_some_iff.mp hread
    obtain ⟨behind, has, hmore⟩ := Option.bind_eq_some_iff.mp hmore
    obtain ⟨_, hblanks, -⟩ := Option.bind_eq_some_iff.mp hmore
    obtain rfl := dropText?_eq_some.mp has
    cases behind with
    | nil => cases hblanks
    | cons b behind =>
      have hb : isBlank b = true := by
        rw [afterBlanks?] at hblanks
        split at hblanks
        · assumption
        · cases hblanks
      rw [← words_trimStart, ← (afterBlanks?_eq_some hleft).1,
        words_append_of_blank (by decide) (by decide) hb] at h
      exact absurd rfl h

/-! ## Import lines -/

/-- An import line as it is written. -/
inductive WrittenImport
  /-- Of a single name. -/
  | single (name : List Char)
  /-- Of everything in a package. -/
  | star (package : List Char)
  /-- Of a single name under an alias. -/
  | renamed (name givenName : List Char)
  deriving DecidableEq, Repr

namespace WrittenImport

/-- The name or package in the line. -/
def name : WrittenImport → List Char
  | single name | star name | renamed name _ => name

/-- The alias in the line. -/
def newName : WrittenImport → Option (List Char)
  | single _ | star _ => none
  | renamed _ givenName => some givenName

/-- What stands behind the name, up to the line break. -/
def tail : WrittenImport → List Char
  | single _ => []
  | star _ => ".*".toList
  | renamed _ givenName => " as ".toList ++ givenName

/-- The line without its line break. -/
def text (i : WrittenImport) : List Char :=
  importText (i.name ++ i.tail)

/-- What the line imports. -/
def line : WrittenImport → ImportLine
  | single name => .single (String.ofList name) none
  | star package => .star (String.ofList package)
  | renamed name givenName => .single (String.ofList name) (some (String.ofList givenName))

/-- A line with names as they can be written, none of them a word that belongs to class heads. -/
structure Fits (i : WrittenImport) : Prop where
  name : IsDotted i.name
  newName : ∀ givenName ∈ i.newName, givenName ≠ [] ∧ ∀ c ∈ givenName, isWordChar c = true
  free : FreeOf headWords i.text

instance (i : WrittenImport) : Decidable i.Fits :=
  decidable_of_iff (IsDotted i.name ∧
      (∀ givenName ∈ i.newName, givenName ≠ [] ∧ givenName.all isWordChar = true) ∧
      FreeOf headWords i.text)
    ⟨fun ⟨hname, hnew, hfree⟩ => ⟨hname,
        fun given hgiven => (hnew given hgiven).imp_right List.all_eq_true.mp, hfree⟩,
      fun ⟨hname, hnew, hfree⟩ => ⟨hname,
        fun given hgiven => (hnew given hgiven).imp_right List.all_eq_true.mpr, hfree⟩⟩

theorem givenName?_renamed {givenName : List Char} (hne : givenName ≠ [])
    (hword : ∀ c ∈ givenName, isWordChar c = true) (rest : List Char) :
    givenName? (" as ".toList ++ givenName ++ '\n' :: rest) = some (givenName, '\n' :: rest) := by
  have hhead : ∀ c ∈ (givenName ++ '\n' :: rest).head?, isBlank c = false := by
    rw [List.head?_append_of_ne_nil _ hne]
    exact fun c hc => isBlank_of_isWordChar (hword c (List.mem_of_mem_head? hc))
  have hbreak : ∀ c ∈ ('\n' :: rest).head?, isWordChar c = false := by simpa using by decide
  have hbehind : afterBlanks? (' ' :: (givenName ++ '\n' :: rest)) =
      some (givenName ++ '\n' :: rest) := by
    rw [afterBlanks?, if_pos (by decide), trimStart_eq_self hhead]
  have hbefore : afterBlanks? (" as ".toList ++ givenName ++ '\n' :: rest) =
      some ("as".toList ++ ' ' :: (givenName ++ '\n' :: rest)) := rfl
  have hdrop : dropText? "as".toList ("as".toList ++ ' ' :: (givenName ++ '\n' :: rest)) =
      some (' ' :: (givenName ++ '\n' :: rest)) := by rw [dropText?_eq_some]
  simp only [givenName?, hbefore, hdrop, Option.bind_eq_bind, Option.bind_some, hbehind,
    takeWhile_append_of_head hword hbreak, dropWhile_append_of_head hword hbreak,
    List.isEmpty_iff, hne, if_false]
  rfl

variable {i : WrittenImport} {rest : List Char}

theorem importTail?_renamed {givenName : List Char} (hne : givenName ≠ [])
    (hword : ∀ c ∈ givenName, isWordChar c = true) (rest : List Char) :
    importTail? (" as ".toList ++ givenName ++ '\n' :: rest) =
      some (some (String.ofList givenName), '\n' :: rest) := by
  simp only [importTail?, givenName?_renamed hne hword, endsLine_break, if_true]

theorem text_append (i : WrittenImport) (rest : List Char) :
    i.text ++ rest = "import".toList ++ ' ' :: (i.name ++ (i.tail ++ rest)) := by
  unfold text importText
  rw [List.append_assoc, List.append_assoc]
  rfl

/-- The line is read as what it imports, if no alias stands behind it. -/
theorem importLine?_text (h : i.Fits) (hrest : (words rest).head? ≠ some "as".toList) :
    importLine? (i.text ++ '\n' :: rest) = some (i.line, '\n' :: rest) := by
  have hname : IsDotted i.name := h.name
  have hgiven : givenName? ('\n' :: rest) = none :=
    givenName?_eq_none_of_words (by rwa [words_cons_of_blank (by decide)])
  have hdrop : dropText? "import".toList (i.text ++ '\n' :: rest) =
      some (' ' :: (i.name ++ (i.tail ++ '\n' :: rest))) := by
    rw [dropText?_eq_some, text_append]
  cases i with
  | single name =>
    simpa [text, tail, line, WrittenImport.name] using importLine?_importText hname hgiven
  | star package =>
    have hdot : ∀ c ∈ package ++ ['.'], isDottedChar c = true :=
      List.forall_mem_append.mpr ⟨hname.2, List.all_eq_true.mp (by decide)⟩
    have hstar : ∀ c ∈ ('*' :: '\n' :: rest).head?, isDottedChar c = false := by
      simpa using by decide
    have htext : package ++ (".*".toList ++ '\n' :: rest) =
        package ++ ['.'] ++ '*' :: '\n' :: rest := by
      rw [List.append_assoc]
      rfl
    have hsplit : splitLast '.' (package ++ ['.']) = some (package, []) :=
      splitLast_append List.not_mem_nil package
    have hne : package ≠ [] := hname.1
    simp only [importLine?, hdrop, Option.bind_eq_bind, Option.bind_some,
      afterBlanks?_dotted hname]
    simp only [WrittenImport.name, tail, htext, takeWhile_append_of_head hdot hstar,
      dropWhile_append_of_head hdot hstar, hsplit, List.isEmpty_iff, hne, if_false,
      importTail?_break hgiven, Option.bind_some]
    rfl
  | renamed name givenName =>
    obtain ⟨hne, hword⟩ := h.newName givenName rfl
    have hblank : ∀ c ∈ (" as ".toList ++ givenName ++ '\n' :: rest).head?,
        isDottedChar c = false := by
      intro c hc
      obtain rfl : ' ' = c := Option.some.inj hc
      decide
    simp only [importLine?, hdrop, Option.bind_eq_bind, Option.bind_some,
      afterBlanks?_dotted hname]
    have hdotted : ∀ c ∈ name, isDottedChar c = true := hname.2
    have hname : name ≠ [] := hname.1
    simp only [WrittenImport.name, tail, takeWhile_append_of_head hdotted hblank,
      dropWhile_append_of_head hdotted hblank]
    split
    · next heq _ => cases heq
    · simp only [List.isEmpty_iff, hname, if_false, importTail?_renamed hne hword,
        Option.bind_some]
      rfl

end WrittenImport

/-! ## Lines that are passed over -/

section Lines

variable {α : Type} {reader : List Char → Option (α × List Char)} {previous : Option Char}

theorem getLast?_append_break (line cs : List Char) (previous : Option Char) :
    (line ++ '\n' :: cs).getLast?.or previous = cs.getLast?.or (some '\n') := by
  rw [List.getLast?_append, Option.or_assoc, getLast?_cons_or]

theorem atLineStart_unlines (lines : List (List Char)) (h : AtLineStart previous) :
    AtLineStart ((unlines lines).getLast?.or previous) := by
  cases lines with
  | nil => exact h
  | cons line lines =>
    rw [getLast?_unlines (List.cons_ne_nil _ _)]
    simp [AtLineStart]

/-- Lines that the reader does not take. -/
theorem occurrencesFrom_unlines_none {lines : List (List Char)} {rest : List Char}
    (hlines : ∀ line ∈ lines, '\n' ∉ line)
    (h : ∀ line ∈ lines, ∀ rest, reader (trimStart (line ++ '\n' :: rest)) = none)
    (hprevious : AtLineStart previous) (offset : Nat) :
    occurrencesFrom (atLineStart reader) 0 offset previous (unlines lines ++ rest) =
      occurrencesFrom (atLineStart reader) 0 (offset + byteLength (unlines lines))
        ((unlines lines).getLast?.or previous) rest := by
  induction lines generalizing previous offset with
  | nil => rfl
  | cons line lines ih =>
    obtain ⟨hline, hlines⟩ := List.forall_mem_cons.mp hlines
    obtain ⟨hhere, hlater⟩ := List.forall_mem_cons.mp h
    rw [unlines_cons, List.append_assoc, List.cons_append,
      occurrencesFrom_line_none hprevious hline (hhere _), ih hlines hlater (by simp [AtLineStart]),
      getLast?_append_break, byteLength_append, byteLength_cons, ← Nat.add_assoc, ← Nat.add_assoc]
    rfl

end Lines

/-! ## Class heads -/

section Heads

variable {name next left : List Char} {previous : Option Char} {allowed : List String}
  {word : String}

/-- A word can be read of a dotted name only if there are no dots in it. -/
theorem wordOf?_dotted (hname : IsDotted name)
    (h : wordOf? allowed (name ++ '\n' :: next) = some (word, left)) :
    word = String.ofList name ∧ word ∈ allowed ∧ left = trimStart next := by
  obtain ⟨rfl, hmem, hblanks⟩ := wordOf?_eq_some.mp h
  have hbreak : ∀ c ∈ ('\n' :: next).head?, isWordChar c = false := by simpa using by decide
  cases hleft : name.dropWhile isWordChar with
  | nil =>
    have hword : ∀ c ∈ name, isWordChar c = true := by
      simpa [List.dropWhile_eq_nil_iff] using hleft
    rw [dropWhile_append_of_head hword hbreak, afterBlanks?, if_pos (by decide)] at hblanks
    rw [takeWhile_append_of_head hword hbreak] at hmem ⊢
    exact ⟨rfl, hmem, (Option.some.inj hblanks).symm⟩
  | cons d ds =>
    -- what stands behind the word is a dot, and no blank
    have hd : isWordChar d = false := head?_dropWhile_eq_false d (by rw [hleft]; rfl)
    have hdotted : isDottedChar d = true :=
      hname.2 d (List.dropWhile_subset _ (hleft ▸ List.mem_cons_self))
    obtain rfl : d = '.' := by simpa [isDottedChar, hd] using hdotted
    have hparts : name ++ '\n' :: next =
        name.takeWhile isWordChar ++ '.' :: (ds ++ '\n' :: next) := by
      rw [← List.cons_append, ← hleft, ← List.append_assoc, List.takeWhile_append_dropWhile]
    rw [hparts, dropWhile_append_of_head (fun _ => List.mem_takeWhile_imp)
      (by simpa using by decide)] at hblanks
    cases hblanks

/-- The name in a package line starts no class either, unless it is one of the words that introduce
a class, or a modifier in front of such a word. -/
theorem classHead?_dotted (hname : IsDotted name) (hword : String.ofList name ∉ classWords)
    (hsolid : trimStart next = next)
    (hnext : String.ofList (next.takeWhile isWordChar) ∉ headWords) :
    classHead? previous (name ++ '\n' :: next) = none := by
  have hat : '@' ∉ (name ++ '\n' :: next).head? := by
    rw [List.head?_append_of_ne_nil _ hname.1]
    exact fun hat => absurd (hname.2 _ (List.mem_of_head? hat)) (by decide)
  cases h : classHead? previous (name ++ '\n' :: next) with
  | none => rfl
  | some r =>
    obtain ⟨-, -, word, left, hread, -⟩ := classHead?_eq_some h
    rw [annotations_of_head hat] at hread
    cases hmodifier : wordOf? classModifiers (name ++ '\n' :: next) with
    | none =>
      rw [readAll_eq_of_none hmodifier] at hread
      obtain ⟨rfl, hmem, -⟩ := wordOf?_dotted hname hread
      exact absurd hmem hword
    | some r' =>
      obtain ⟨-, -, hleft⟩ := wordOf?_dotted hname hmodifier
      rw [hsolid] at hleft
      have hstop : wordOf? classModifiers r'.2 = none :=
        hleft ▸ wordOf?_eq_none_of_subset hnext (List.subset_append_left _ _)
      rw [readAll_eq_singleton (by simp) hmodifier hstop, hleft,
        wordOf?_eq_none_of_subset hnext (List.subset_append_right _ _)] at hread
      cases hread

theorem precedesHead_of_isDottedChar {c : Char} (h : isDottedChar c = true) :
    precedesHead c = false := by
  simp only [isDottedChar, Bool.or_eq_true, beq_iff_eq] at h
  rcases h with h | rfl
  · simp [precedesHead, h]
  · decide

theorem occurrencesFrom_classHead?_packageText (hname : IsDotted name)
    (hword : String.ofList name ∉ classWords) (hsolid : trimStart next = next)
    (hnext : String.ofList (next.takeWhile isWordChar) ∉ headWords) :
    occurrencesFrom classHead? 0 0 none (packageText name ++ '\n' :: next) =
      occurrencesFrom classHead? 0 (byteLength (packageText name) + 1) (some '\n') next := by
  have hinside : ∀ as c bs, name ++ ['\n'] = as ++ c :: bs →
      classHead? (as.getLast?.or (some ' ')) (c :: (bs ++ next)) = none := by
    intro as c bs heq
    rcases List.eq_nil_or_concat as with rfl | ⟨as, d, rfl⟩
    · have hcs : c :: (bs ++ next) = name ++ '\n' :: next := by
        rw [List.append_cons name, heq]
        rfl
      rw [hcs]
      exact classHead?_dotted hname hword hsolid hnext
    · have hd : d ∈ name := by
        have hdrop := congrArg List.dropLast heq
        rw [List.dropLast_concat, List.concat_eq_append, List.append_assoc,
          List.dropLast_append_of_ne_nil (by simp)] at hdrop
        rw [hdrop]
        simp
      rw [List.concat_eq_append, List.getLast?_concat]
      exact if_neg (by simp [precedesHead_of_isDottedChar (hname.2 d hd)])
  have htext : packageText name ++ '\n' :: next =
      "package ".toList ++ (name ++ ['\n'] ++ next) := by
    unfold packageText
    rw [List.append_assoc, List.append_assoc]
    rfl
  have hlast : "package ".toList.getLast?.or none = some ' ' := by decide
  have hfront : occurrencesFrom classHead? 0 0 none
      ("package ".toList ++ (name ++ ['\n'] ++ next)) = _ :=
    occurrencesFrom_classHead?_of_freeOf ⟨' ', by decide, by decide⟩ (by decide) (by decide) 0
  have hlength : 0 + byteLength "package ".toList + byteLength (name ++ ['\n']) =
      byteLength (packageText name) + 1 := by
    unfold packageText
    rw [byteLength_append, byteLength_append, Nat.zero_add, Nat.add_assoc]
    rfl
  rw [hlast, occurrencesFrom_of_none hinside, hlength, List.getLast?_concat] at hfront
  rw [htext, hfront]
  rfl

end Heads

/-! ## Characters of the lines -/

/-- A character of a package line or an import line. -/
def isImportChar (c : Char) : Bool :=
  isDottedChar c || c == ' ' || c == '*'

theorem isImportChar_of_isDottedChar {c : Char} (h : isDottedChar c = true) :
    isImportChar c = true := by
  simp [isImportChar, h]

theorem isImportChar_of_mem_packageText {name : List Char} (hname : IsDotted name) :
    ∀ c ∈ packageText name, isImportChar c = true :=
  List.forall_mem_append.mpr
    ⟨List.all_eq_true.mp (by decide), fun c hc => isImportChar_of_isDottedChar (hname.2 c hc)⟩

theorem not_break_packageText {name : List Char} (hname : IsDotted name) :
    '\n' ∉ packageText name :=
  fun hmem => absurd (isImportChar_of_mem_packageText hname _ hmem) (by decide)

namespace WrittenImport

variable {i : WrittenImport}

theorem isImportChar_of_mem_text (h : i.Fits) : ∀ c ∈ i.text, isImportChar c = true := by
  have htail : ∀ c ∈ i.tail, isImportChar c = true := by
    cases i with
    | single name => exact fun c hc => absurd hc List.not_mem_nil
    | star package => exact List.all_eq_true.mp (show ".*".toList.all isImportChar = true by decide)
    | renamed name givenName =>
      obtain ⟨-, hword⟩ := h.newName givenName rfl
      exact List.forall_mem_append.mpr ⟨List.all_eq_true.mp (by decide),
        fun c hc => isImportChar_of_isDottedChar (by simp [isDottedChar, hword c hc])⟩
  have hname : ∀ c ∈ i.name, isImportChar c = true :=
    fun c hc => isImportChar_of_isDottedChar (h.name.2 c hc)
  exact List.forall_mem_append.mpr
    ⟨List.all_eq_true.mp (by decide), List.forall_mem_append.mpr ⟨hname, htail⟩⟩

/-- The first word of the line. -/
theorem head?_words_text (i : WrittenImport) (rest : List Char) :
    (words (i.text ++ rest)).head? = some "import".toList := by
  rw [text_append, words_append_of_blank (by decide) (by decide) (by decide)]
  rfl

theorem trimStart_text (i : WrittenImport) (rest : List Char) :
    trimStart (i.text ++ rest) = i.text ++ rest :=
  trimStart_importText _ rest

theorem takeWhile_text (i : WrittenImport) (rest : List Char) :
    (i.text ++ rest).takeWhile isWordChar = "import".toList := by
  rw [text_append, takeWhile_append_cons (by decide)]
  decide

theorem Fits.not_break_text (h : i.Fits) : '\n' ∉ i.text :=
  fun hmem => absurd (isImportChar_of_mem_text h _ hmem) (by decide)

end WrittenImport

/-! ## Blocks of import lines -/

/-- Import lines are read one by one. -/
theorem importLines_block {imports : List WrittenImport} {rest : List Char}
    (himports : ∀ i ∈ imports, i.Fits) (hrest : (words rest).head? ≠ some "as".toList)
    {previous : Option Char} (hprevious : AtLineStart previous) (offset : Nat) :
    (occurrencesFrom (atLineStart importLine?) 0 offset previous
        (unlines (imports.map WrittenImport.text) ++ rest)).map (·.value) =
      imports.map WrittenImport.line ++
        (occurrencesFrom (atLineStart importLine?) 0
          (offset + byteLength (unlines (imports.map WrittenImport.text)))
          ((unlines (imports.map WrittenImport.text)).getLast?.or previous)
            rest).map (·.value) := by
  induction imports generalizing offset previous with
  | nil => rfl
  | cons i imports ih =>
    obtain ⟨hi, himports⟩ := List.forall_mem_cons.mp himports
    have hnext : (words (unlines (imports.map WrittenImport.text) ++ rest)).head? ≠
        some "as".toList := by
      cases imports with
      | nil => exact hrest
      | cons next imports =>
        rw [List.map_cons, unlines_cons, List.append_assoc, WrittenImport.head?_words_text]
        decide
    have hread := WrittenImport.importLine?_text hi hnext
    rw [← WrittenImport.trimStart_text] at hread
    rw [List.map_cons, unlines_cons, List.append_assoc, List.cons_append,
      occurrencesFrom_line_some hprevious hi.not_break_text (List.cons_ne_nil _ _) hread,
      List.map_cons, ih himports (by simp [AtLineStart]),
      getLast?_append_break, byteLength_append, byteLength_cons, ← Nat.add_assoc, ← Nat.add_assoc]
    rfl

/-! ## Files -/

/-- A source file that starts with a package line, if there is one, with import lines and with an
empty line. -/
structure WrittenUnit where
  package : Option (List Char)
  imports : List WrittenImport
  /-- What follows the empty line. -/
  further : List Char
  deriving DecidableEq, Repr

namespace WrittenUnit

/-- The package line. -/
def packageLine (u : WrittenUnit) : List (List Char) :=
  u.package.toList.map packageText

/-- The import lines. -/
def block (u : WrittenUnit) : List (List Char) :=
  u.imports.map WrittenImport.text

/-- The text before the empty line. -/
def front (u : WrittenUnit) : List Char :=
  unlines u.packageLine ++ unlines u.block

/-- The text of the file. -/
def text (u : WrittenUnit) : List Char :=
  u.front ++ '\n' :: u.further

/-- A file whose import lines are read one by one: no word in them starts a class, no two of them
explain the same name, and what follows does not give the last one an alias. Comments do not count
there, since they are blanked out first. -/
structure Fits (u : WrittenUnit) : Prop where
  package : ∀ name ∈ u.package, IsDotted name ∧ String.ofList name ∉ classWords
  imports : ∀ i ∈ u.imports, i.Fits
  names : (u.imports.filterMap fun i => i.line.name?).Nodup
  further : (words (blankComments u.further)).head? ≠ some "as".toList

instance (u : WrittenUnit) : Decidable u.Fits :=
  decidable_of_iff ((∀ name ∈ u.package, IsDotted name ∧ String.ofList name ∉ classWords) ∧
      (∀ i ∈ u.imports, i.Fits) ∧ (u.imports.filterMap fun i => i.line.name?).Nodup ∧
      (words (blankComments u.further)).head? ≠ some "as".toList)
    ⟨fun ⟨hpackage, himports, hnames, hfurther⟩ => ⟨hpackage, himports, hnames, hfurther⟩,
      fun ⟨hpackage, himports, hnames, hfurther⟩ => ⟨hpackage, himports, hnames, hfurther⟩⟩

/-- The text behind the import lines, without comments. -/
def behind (u : WrittenUnit) : List Char :=
  '\n' :: blankComments u.further

variable {u : WrittenUnit}

theorem getLast?_unlines_block (hne : u.imports ≠ []) : (unlines u.block).getLast? = some '\n' :=
  getLast?_unlines (by simpa [block] using hne)

namespace Fits

theorem not_break_packageLine (h : u.Fits) : ∀ line ∈ u.packageLine, '\n' ∉ line := by
  intro line hline
  obtain ⟨name, hname, rfl⟩ := List.mem_map.mp hline
  exact not_break_packageText (h.package name (Option.mem_toList.mp hname)).1

theorem not_break_block (h : u.Fits) : ∀ line ∈ u.block, '\n' ∉ line := by
  intro line hline
  obtain ⟨i, hi, rfl⟩ := List.mem_map.mp hline
  exact (h.imports i hi).not_break_text

theorem silent_front (h : u.Fits) : Silent u.front := by
  rw [front, ← unlines_append]
  refine .unlines fun line hline => .of_class (p := isImportChar) (by decide) ?_
  rcases List.mem_append.mp hline with hline | hline
  · obtain ⟨name, hname, rfl⟩ := List.mem_map.mp hline
    exact isImportChar_of_mem_packageText (h.package name (Option.mem_toList.mp hname)).1
  · obtain ⟨i, hi, rfl⟩ := List.mem_map.mp hline
    exact WrittenImport.isImportChar_of_mem_text (h.imports i hi)

/-- Only the text behind the import lines holds comments. -/
theorem masked (h : u.Fits) : blankComments u.text = u.front ++ u.behind := by
  rw [text, h.silent_front.blankComments_append (by simp), behind, blankComments,
    CommentState.mask_cons_of_ne (by decide)]
  rfl

/-- The import lines of the file are those at its start and those behind them. -/
theorem importLines_masked (h : u.Fits) (hne : u.imports ≠ []) :
    importLines (blankComments u.text) = u.imports.map WrittenImport.line ++
      (occurrencesFrom (atLineStart importLine?) 0 (byteLength u.front) (some '\n')
        u.behind).map (·.value) := by
  have hpackage : ∀ line ∈ u.packageLine, ∀ rest,
      importLine? (trimStart (line ++ '\n' :: rest)) = none := by
    intro line hline rest
    obtain ⟨name, -, rfl⟩ := List.mem_map.mp hline
    rw [trimStart_packageText]
    exact importLine?_eq_none (by rw [takeWhile_packageText]; decide)
  have hrest : (words u.behind).head? ≠ some "as".toList := by
    rw [behind, words_cons_of_blank (by decide)]
    exact h.further
  rw [importLines, occurrences, h.masked, front, List.append_assoc,
    occurrencesFrom_unlines_none h.not_break_packageLine hpackage (by simp [AtLineStart]), block,
    importLines_block h.imports hrest (atLineStart_unlines _ (by simp [AtLineStart])), ← block,
    getLast?_unlines_block hne, Option.some_or, Nat.zero_add, byteLength_append]

/-- The package lines of the file are the one at its start, if there is one, and those behind its
front. -/
theorem packageLines_masked (h : u.Fits) (hne : u.imports ≠ []) :
    (occurrences (atLineStart packageLine?) (blankComments u.text)).map (·.value) =
      u.package.toList ++
        (occurrencesFrom (atLineStart packageLine?) 0 (byteLength u.front) (some '\n')
          u.behind).map (·.value) := by
  have hblock : ∀ line ∈ u.block, ∀ rest,
      packageLine? (trimStart (line ++ '\n' :: rest)) = none := by
    intro line hline rest
    obtain ⟨i, -, rfl⟩ := List.mem_map.mp hline
    rw [WrittenImport.trimStart_text, WrittenImport.text_append]
    rfl
  have hbehind {previous : Option Char} (hprevious : AtLineStart previous) (offset : Nat) :
      occurrencesFrom (atLineStart packageLine?) 0 offset previous (unlines u.block ++ u.behind) =
        occurrencesFrom (atLineStart packageLine?) 0 (offset + byteLength (unlines u.block))
          (some '\n') u.behind := by
    rw [occurrencesFrom_unlines_none h.not_break_block hblock hprevious,
      getLast?_unlines_block hne, Option.some_or]
  rw [occurrences, h.masked, front, List.append_assoc, byteLength_append]
  cases hpackage : u.package with
  | none =>
    have hline : u.packageLine = [] := by simp [packageLine, hpackage]
    rw [hline, unlines_nil, List.nil_append, hbehind (by simp [AtLineStart])]
    rfl
  | some name =>
    have hline : u.packageLine = [packageText name] := by simp [packageLine, hpackage]
    have hname : IsDotted name := (h.package name hpackage).1
    have hread := packageLine?_append hname (unlines u.block ++ u.behind)
    rw [← trimStart_packageText] at hread
    rw [hline, unlines_cons, unlines_nil, List.append_assoc, List.singleton_append,
      occurrencesFrom_line_some (by simp [AtLineStart]) (not_break_packageText hname)
        (List.cons_ne_nil _ _) hread, hbehind (by simp [AtLineStart])]
    simp only [byteLength_append, Nat.zero_add]
    rfl

/-- The class heads of the file are those behind the import lines. -/
theorem classHeads_masked (h : u.Fits) (hne : u.imports ≠ []) :
    classHeads (blankComments u.text) =
      occurrencesFrom classHead? 0 (byteLength u.front) (some '\n') u.behind := by
  have hfree : FreeOf headWords (unlines u.block) :=
    freeOf_unlines (by decide) fun line hline => by
      obtain ⟨i, hi, rfl⟩ := List.mem_map.mp hline
      exact (h.imports i hi).free
  have hat : '@' ∉ unlines u.block := by
    intro hmem
    rcases mem_unlines hmem with hbreak | ⟨line, hline, hmem⟩
    · cases hbreak
    · obtain ⟨i, hi, rfl⟩ := List.mem_map.mp hline
      exact absurd (WrittenImport.isImportChar_of_mem_text (h.imports i hi) _ hmem) (by decide)
  have hbehind (offset : Nat) (previous : Option Char) :
      occurrencesFrom classHead? 0 offset previous (unlines u.block ++ u.behind) =
        occurrencesFrom classHead? 0 (offset + byteLength (unlines u.block)) (some '\n')
          u.behind := by
    have hlast := getLast?_unlines_block hne
    rw [occurrencesFrom_classHead?_of_freeOf ⟨'\n', hlast, by decide⟩ hat hfree, hlast,
      Option.some_or]
  rw [classHeads, occurrences, h.masked, front, List.append_assoc, byteLength_append]
  cases hpackage : u.package with
  | none =>
    have hline : u.packageLine = [] := by simp [packageLine, hpackage]
    rw [hline, unlines_nil, List.nil_append, hbehind]
    rfl
  | some name =>
    have hline : u.packageLine = [packageText name] := by simp [packageLine, hpackage]
    obtain ⟨hname, hword⟩ := h.package name hpackage
    obtain ⟨i, imports, himports⟩ := List.exists_cons_of_ne_nil hne
    have hnext : unlines u.block ++ u.behind =
        i.text ++ '\n' :: (unlines (imports.map WrittenImport.text) ++ u.behind) := by
      simp [block, himports]
    have hsolid : trimStart (unlines u.block ++ u.behind) = unlines u.block ++ u.behind := by
      rw [hnext, WrittenImport.trimStart_text]
    have himport : String.ofList ((unlines u.block ++ u.behind).takeWhile isWordChar) ∉
        headWords := by
      rw [hnext, WrittenImport.takeWhile_text]
      decide
    rw [hline, unlines_cons, unlines_nil, List.append_assoc, List.singleton_append,
      occurrencesFrom_classHead?_packageText hname hword hsolid himport, hbehind]
    simp only [byteLength_append]
    rfl

end Fits

end WrittenUnit

end ComponentWiring.Source
