import ComponentWiring.Proofs.Code.Planning

/-!
The lines of the file of a class, kind by kind. The file has the package line and the imports at its
head, then the factory and then the builder (`FactoryFile.lines_planned`). Behind the line with the
name of the factory every line is a `FactoryFile.CodeLine`: one of a few closed lines, or one that
copies names, types and defaults of the class to fixed places.
-/

namespace ComponentWiring

open Text Source

namespace FactoryPart

/-- What stands behind the name of the factory on its line. -/
def headEnd (factory : FactoryPart) : String :=
  if factory.fields.isEmpty then " \x7b" else "("

/-- The lines of a factory behind the line of its name. -/
def memberLines (factory : FactoryPart) (target : String) : List String :=
  (if factory.fields.isEmpty then [] else factory.fields.map ("    " ++ ·) ++ [") \x7b"]) ++ [""] ++
    (if factory.createParameters.isEmpty then ["    fun create(): " ++ target ++ " \x7b"]
      else ["    fun create("] ++ factory.createParameters.map ("        " ++ ·) ++
        ["    ): " ++ target ++ " \x7b"]) ++
    ["        return " ++ target ++ "(" ++ factory.arguments ++ ")", "    \x7d", "\x7d"]

theorem layout_lines (factory : FactoryPart) (target : String) :
    layout (factory.lines target) = layout factory.annotations ++ ("class".toList ++ ' ' ::
      (factory.name.toList ++ (factory.headEnd.toList ++ '\n' ::
        layout (factory.memberLines target)))) := by
  rw [lines, headEnd, memberLines]
  split <;> simp

end FactoryPart

namespace FactoryFile

variable {d : Declaration} {exportable viaFactory : Bool} {mode : Mode} {line : String}

/-- The lines at the head of a file. -/
def frontLines (d : Declaration) (exportable : Bool) (mode : Mode) (viaFactory : Bool) :
    List String :=
  packageLines d.package ++
    ImportBlock.lines (importNames d exportable viaFactory mode) d.package ++ [""]

/-- The lines of the builder function, if there is one, below those of the factory. -/
def builderLines (d : Declaration) (exportable : Bool) (mode : Mode) (viaFactory : Bool) :
    List String :=
  if exportable then
    (if viaFactory then [""] else []) ++ (builderPart d mode viaFactory).lines d.name
  else []

theorem lines_planned (d : Declaration) (exportable : Bool) (mode : Mode) (policy : Policy) :
    (planned d exportable mode policy).lines =
      frontLines d exportable mode (hasFactory d policy) ++
        (if hasFactory d policy then (factoryPart d mode).lines d.name else []) ++
        builderLines d exportable mode (hasFactory d policy) := by
  unfold planned lines frontLines builderLines
  cases hasFactory d policy <;> cases exportable <;> rfl

/-! ## Kinds of lines -/

/-- Lines that are the same in every file. -/
def closedLines : List String :=
  ["", ") \x7b", "    fun create(", "    \x7d", "\x7d", "@VaadinDsl", "    add(component)",
    "    component.block()", "    return component"]

/-- What stands in front of the class as the type that a function returns. -/
def returnFronts : List String :=
  ["    fun create(): ", "    ): ", "): "]

/-- The calls with parameters of the class as arguments: what stands in front, and what is
called. -/
def callFronts (d : Declaration) : List (String × String) :=
  [("        return ", d.name), ("    val component = ", "factory.create"),
    ("    val component = ", d.name)]

/-- A line behind the one with the name of the factory. -/
inductive CodeLine (d : Declaration) (mode : Mode) : String → Prop
  | closed {line : String} (mem : line ∈ closedLines) : CodeLine d mode line
  | handle : CodeLine d mode ("    " ++ (mode.handle.declaration ++ ","))
  | field {p : Parameter} (injected : p ∈ d.injected) {comma : String} (mem : comma ∈ ["", ","]) :
      CodeLine d mode ("    " ++ ("private val " ++ p.signature ++ comma))
  | parameter {p : Parameter} (exposed : p ∈ d.exposed) {margin comma : String}
      (blank : margin ∈ ["    ", "        "]) (mem : comma ∈ ["", ","]) :
      CodeLine d mode (margin ++ (p.line ++ comma))
  | block : CodeLine d mode ("    " ++ ("block: " ++ d.name ++ ".() -> Unit = \x7b\x7d"))
  | returns {front : String} (mem : front ∈ returnFronts) :
      CodeLine d mode (front ++ d.name ++ " \x7b")
  | call {front callee : String} (mem : (front, callee) ∈ callFronts d) {ps : List Parameter}
      (subset : ps ⊆ d.parameters) :
      CodeLine d mode (front ++ (callee ++ "(" ++ argumentText ps ++ ")"))
  | builder : CodeLine d mode ("fun HasComponents." ++ d.builderName ++ "(")
  | fetch : CodeLine d mode ("    " ++ ("val factory = " ++ mode.fetch d.factoryName))

theorem mem_withCommas {lines : List String} (h : line ∈ withCommas lines) :
    ∃ l ∈ lines, ∃ comma ∈ ["", ","], line = l ++ comma := by
  induction lines with
  | nil => cases h
  | cons l lines ih =>
    cases lines with
    | nil =>
      refine ⟨l, List.mem_cons_self, "", List.mem_cons_self, ?_⟩
      rw [String.append_empty, List.mem_singleton.mp h]
    | cons next lines =>
      rcases List.mem_cons.mp h with rfl | h
      · exact ⟨l, List.mem_cons_self, ",", by simp, rfl⟩
      · obtain ⟨l', hl', hcomma⟩ := ih h
        exact ⟨l', List.mem_cons_of_mem l hl', hcomma⟩

theorem codeLine_of_mem_memberLines (h : line ∈ (factoryPart d mode).memberLines d.name) :
    CodeLine d mode line := by
  simp only [FactoryPart.memberLines, List.mem_append, or_assoc] at h
  rcases h with hfields | hblank | hcreate | hend
  · split at hfields
    · cases hfields
    · rcases List.mem_append.mp hfields with hfield | hend
      · obtain ⟨l, hl, rfl⟩ := List.mem_map.mp hfield
        obtain ⟨_, hsignature, comma, hcomma, rfl⟩ := mem_withCommas hl
        obtain ⟨p, hp, rfl⟩ := List.mem_map.mp hsignature
        exact .field hp hcomma
      · exact .closed (List.mem_singleton.mp hend ▸ by decide)
  · exact .closed (List.mem_singleton.mp hblank ▸ by decide)
  · split at hcreate
    · exact List.mem_singleton.mp hcreate ▸ .returns (by decide)
    · simp only [List.mem_append, List.mem_singleton, or_assoc] at hcreate
      rcases hcreate with rfl | hparameter | rfl
      · exact .closed (by decide)
      · obtain ⟨l, hl, rfl⟩ := List.mem_map.mp hparameter
        obtain ⟨_, hline, comma, hcomma, rfl⟩ := mem_withCommas hl
        obtain ⟨p, hp, rfl⟩ := List.mem_map.mp hline
        exact .parameter hp (by decide) hcomma
      · exact .returns (by decide)
  · simp only [List.mem_cons, List.not_mem_nil, or_false] at hend
    rcases hend with rfl | rfl | rfl
    · have hcall : CodeLine d mode
          ("        return " ++ (d.name ++ "(" ++ argumentText d.parameters ++ ")")) :=
        .call (by simp [callFronts]) (List.Subset.refl _)
      simpa [factoryPart, String.append_assoc] using hcall
    · exact .closed (by decide)
    · exact .closed (by decide)

theorem codeLine_of_mem_creation (h : line ∈ creation d mode viaFactory) :
    CodeLine d mode ("    " ++ line) := by
  have hcall {callee : String} {ps : List Parameter}
      (hmem : ("    val component = ", callee) ∈ callFronts d) (hps : ps ⊆ d.parameters) :
      CodeLine d mode
        ("    " ++ ("val component = " ++ callee ++ "(" ++ argumentText ps ++ ")")) := by
    have heq : "    " ++ ("val component = " ++ callee ++ "(" ++ argumentText ps ++ ")") =
        "    val component = " ++ (callee ++ "(" ++ argumentText ps ++ ")") :=
      String.toList_injective (by simp)
    exact heq ▸ .call hmem hps
  unfold creation at h
  split at h
  · rcases List.mem_cons.mp h with rfl | h
    · exact .fetch
    · have hopen : "val component = factory.create(" =
          "val component = " ++ "factory.create" ++ "(" := by decide
      rw [List.mem_singleton.mp h, hopen]
      exact hcall (by simp [callFronts]) (List.filter_subset_self _)
  · obtain rfl := List.mem_singleton.mp h
    exact hcall (by simp [callFronts]) (List.Subset.refl _)

theorem codeLine_of_mem_builderLines (h : line ∈ builderLines d exportable mode viaFactory) :
    CodeLine d mode line := by
  unfold builderLines at h
  split at h
  · rcases List.mem_append.mp h with hblank | h
    · split at hblank
      · exact .closed (List.mem_singleton.mp hblank ▸ by decide)
      · cases hblank
    · simp only [BuilderPart.lines, List.mem_append, List.mem_cons, List.not_mem_nil, or_false,
        or_assoc] at h
      rcases h with rfl | rfl | hparameter | rfl | hbody | rfl
      · exact .closed (by decide)
      · exact .builder
      · obtain ⟨l, hl, rfl⟩ := List.mem_map.mp hparameter
        simp only [builderPart, List.mem_append, or_assoc] at hl
        rcases hl with hhandle | hexposed | hblock
        · split at hhandle
          · exact List.mem_singleton.mp hhandle ▸ .handle
          · cases hhandle
        · obtain ⟨p, hp, rfl⟩ := List.mem_map.mp hexposed
          exact .parameter hp (by decide) (by decide)
        · exact List.mem_singleton.mp hblock ▸ .block
      · exact .returns (by decide)
      · obtain ⟨l, hl, rfl⟩ := List.mem_map.mp hbody
        rcases List.mem_append.mp hl with hl | hl
        · exact codeLine_of_mem_creation hl
        · refine .closed ?_
          simp only [List.mem_cons, List.not_mem_nil, or_false] at hl
          rcases hl with rfl | rfl | rfl <;> decide
      · exact .closed (by decide)
  · cases h

end FactoryFile

end ComponentWiring
