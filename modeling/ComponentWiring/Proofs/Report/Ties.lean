import ComponentWiring.Proofs.Model.ReportOrder
import ComponentWiring.Report.Layout

/-!
When a report depends on the order in which its diagnostics were recorded. The order of a report
compares everything but the severity, and sorting leaves what it does not tell apart as it was
recorded (`filter_mergeSort_ties`). So a report forgets the recording order if no two diagnostics
differ in nothing but their severity (`SeveritySettled`), and only then: otherwise either of the two
can be recorded first, and the texts of the reports differ where the first of them stands
(`forgetsRecording_iff_severitySettled`).
-/

namespace ComponentWiring

open Std Report

/-- Sorting leaves the members that an order does not tell from a given one as they came. -/
theorem filter_mergeSort_ties {α : Type} (cmp : α → α → Ordering) [TransCmp cmp] (a : α)
    (l : List α) : (l.mergeSort fun b c => (cmp b c).isLE).filter (fun b => cmp a b == .eq) =
      l.filter fun b => cmp a b == .eq := by
  have htied : (l.filter fun b => cmp a b == .eq).Pairwise fun b c => (cmp b c).isLE = true := by
    refine List.pairwise_of_forall_mem_list fun b hb c hc => ?_
    have hb : cmp a b = .eq := by simpa using (List.mem_filter.mp hb).2
    have hc : cmp a c = .eq := by simpa using (List.mem_filter.mp hc).2
    rw [TransCmp.congr_left (OrientedCmp.eq_symm hb), hc]
    rfl
  have hsub := List.sublist_mergeSort (fun _ _ _ => TransCmp.isLE_trans) (isLE_total cmp)
    htied List.filter_sublist
  have hkept := hsub.filter fun b => cmp a b == .eq
  rw [List.filter_filter] at hkept
  simp only [Bool.and_self] at hkept
  refine (hkept.eq_of_length ?_).symm
  exact ((List.mergeSort_perm l _).filter _).length_eq.symm

namespace Diagnostic

/-- The diagnostic with its severity taken out of sight. -/
def unranked (d : Diagnostic) : Diagnostic :=
  { d with severity := .warning }

variable {a b : Diagnostic}

theorem unranked_eq_iff : a.unranked = b.unranked ↔ a.rule = b.rule ∧ a.subject = b.subject ∧
    a.message = b.message ∧ a.location = b.location := by
  simp [unranked]

/-- Up to the severity, the order of a report tells different diagnostics apart. -/
theorem order_eq_eq_iff : order a b = .eq ↔ a.unranked = b.unranked := by
  constructor
  · exact fun h => eq_of_order_eq (a := a.unranked) (b := b.unranked) rfl h
  · intro h
    have hself : order a.unranked a.unranked = .eq := ReflCmp.compare_self
    nth_rewrite 2 [h] at hself
    exact hself

theorem eq_of_unranked_eq (hseverity : a.severity = b.severity) (h : a.unranked = b.unranked) :
    a = b :=
  eq_of_order_eq hseverity (order_eq_eq_iff.mpr h)

/-- The start of a line shows the severity. -/
theorem severity_eq_of_line_append {format : OutputFormat} {color : Bool} {rest rest' : String}
    (h : diagnosticLine format color a ++ rest = diagnosticLine format color b ++ rest') :
    a.severity = b.severity := by
  -- A plain line starts with the name of the severity, a painted one with the code of its colour.
  have hfirst := congrArg (fun line => line.toList[0]?) h
  have hsixth := congrArg (fun line => line.toList[5]?) h
  cases ha : a.severity <;> cases hb : b.severity <;> first
    | rfl
    | cases format <;> cases color <;>
        simp [diagnosticLine, render, head, ha, hb, Severity.name, styleOf, Style.paint,
          Style.opening, Style.boldRed, Style.boldYellow] at hfirst hsixth

end Diagnostic

namespace Diagnostics

variable {ds ds' : Diagnostics}

/-- Diagnostics that differ at most in their severity do not differ. -/
def SeveritySettled (ds : Diagnostics) : Prop :=
  ∀ a ∈ ds, ∀ b ∈ ds, a.rule = b.rule → a.subject = b.subject → a.message = b.message →
    a.location = b.location → a.severity = b.severity

instance (ds : Diagnostics) : Decidable ds.SeveritySettled :=
  inferInstanceAs (Decidable (∀ a ∈ ds, ∀ b ∈ ds, _ → _ → _ → _ → _))

theorem SeveritySettled.eq_of_unranked_eq (h : ds.SeveritySettled) {a b : Diagnostic} (ha : a ∈ ds)
    (hb : b ∈ ds) (heq : a.unranked = b.unranked) : a = b := by
  obtain ⟨hrule, hsubject, hmessage, hlocation⟩ := Diagnostic.unranked_eq_iff.mp heq
  exact Diagnostic.eq_of_unranked_eq (h a ha b hb hrule hsubject hmessage hlocation) heq

theorem sorted_perm (ds : Diagnostics) : ds.sorted.Perm ds :=
  List.mergeSort_perm _ _

/-- However the diagnostics were recorded, a report differs in severities at most. -/
theorem map_unranked_sorted (hperm : ds.Perm ds') :
    ds.sorted.map Diagnostic.unranked = ds'.sorted.map Diagnostic.unranked := by
  have hpairwise (ds : Diagnostics) : (ds.sorted.map Diagnostic.unranked).Pairwise
      fun a b => (Diagnostic.order a b).isLE = true :=
    List.pairwise_map.mpr (pairwise_mergeSort Diagnostic.order ds)
  refine List.Perm.eq_of_pairwise (fun a b ha hb hab hba => ?_) (hpairwise ds) (hpairwise ds')
    ((ds.sorted_perm.trans (hperm.trans ds'.sorted_perm.symm)).map _)
  obtain ⟨a, -, rfl⟩ := List.mem_map.mp ha
  obtain ⟨b, -, rfl⟩ := List.mem_map.mp hb
  exact Diagnostic.eq_of_order_eq rfl (OrientedCmp.isLE_antisymm hab hba)

/-- A report whose diagnostics are settled forgets in which order they were recorded. -/
theorem SeveritySettled.sorted_eq (h : ds.SeveritySettled) (hperm : ds.Perm ds') :
    ds.sorted = ds'.sorted :=
  mergeSort_eq_of_perm Diagnostic.order hperm fun _ ha _ hb heq =>
    h.eq_of_unranked_eq ha hb (Diagnostic.order_eq_eq_iff.mp heq)

/-- Where it never matters which diagnostic was recorded first, no two of them differ in nothing but
their severity. -/
theorem severitySettled_of_sorted_eq
    (h : ∀ ds' : Diagnostics, ds.Perm ds' → ds.sorted = ds'.sorted) : ds.SeveritySettled := by
  intro a ha b hb hrule hsubject hmessage hlocation
  by_contra hseverity
  have hne : b ≠ a := fun heq => hseverity (congrArg Diagnostic.severity heq.symm)
  have hself : Diagnostic.order a a = .eq := ReflCmp.compare_self
  have htie : Diagnostic.order a b = .eq := Diagnostic.order_eq_eq_iff.mpr
    (Diagnostic.unranked_eq_iff.mpr ⟨hrule, hsubject, hmessage, hlocation⟩)
  -- Recorded as the first two, `a` and `b` are the first of their ties in the order of recording.
  have hperm : ds.Perm (a :: b :: (ds.erase a).erase b) := (List.perm_cons_erase ha).trans
    ((List.perm_cons_erase ((List.mem_erase_of_ne hne).mpr hb)).cons a)
  have hsorted := (h _ hperm).symm.trans (h _ (hperm.trans (List.Perm.swap b a _)))
  have htied := congrArg (List.filter fun d => Diagnostic.order a d == .eq) hsorted
  simp only [sorted, filter_mergeSort_ties, List.filter_cons, hself, htie, beq_self_eq_true,
    if_true] at htied
  exact hne (List.cons.inj htied).1.symm

/-- The text of a report shows the severities of its diagnostics. -/
theorem eq_of_lines_eq {format : OutputFormat} {color : Bool}
    (hunranked : ds.map Diagnostic.unranked = ds'.map Diagnostic.unranked)
    (h : "\n".intercalate (ds.map (diagnosticLine format color)) =
      "\n".intercalate (ds'.map (diagnosticLine format color))) : ds = ds' := by
  induction ds generalizing ds' with
  | nil => exact (List.map_eq_nil_iff.mp hunranked.symm).symm
  | cons a ds ih =>
    obtain ⟨b, ds', rfl, hhead, htail⟩ := List.map_eq_cons_iff.mp hunranked.symm
    have hlines (d : Diagnostic) (ds : List Diagnostic) :
        ∃ rest, "\n".intercalate ((d :: ds).map (diagnosticLine format color)) =
          diagnosticLine format color d ++ rest ∧ (ds ≠ [] →
            rest = "\n" ++ "\n".intercalate (ds.map (diagnosticLine format color))) := by
      cases ds with
      | nil => exact ⟨"", by simp, by simp⟩
      | cons e ds =>
        refine ⟨_, ?_, fun _ => rfl⟩
        rw [List.map_cons, List.map_cons, String.intercalate_cons_cons, String.append_assoc]
    obtain ⟨rest, hrest, hmore⟩ := hlines a ds
    obtain ⟨rest', hrest', hmore'⟩ := hlines b ds'
    rw [hrest, hrest'] at h
    obtain rfl : b = a :=
      Diagnostic.eq_of_unranked_eq (Diagnostic.severity_eq_of_line_append h).symm hhead
    rw [String.append_right_inj] at h
    cases ds with
    | nil => rw [List.map_eq_nil_iff.mp htail]
    | cons c ds =>
      have hne : ds' ≠ [] := by
        rintro rfl
        cases htail
      rw [hmore (List.cons_ne_nil c ds), hmore' hne, String.append_right_inj] at h
      rw [ih htail.symm h]

/-- A report and its text, in any format, forget in which order the diagnostics were recorded just
where no two of them differ in nothing but their severity. -/
theorem forgetsRecording_iff_severitySettled (ds : Diagnostics) (format : OutputFormat)
    (color : Bool) :
    ((∀ ds' : Diagnostics, ds.Perm ds' → ds.sorted = ds'.sorted) ↔ ds.SeveritySettled) ∧
      ((∀ ds' : Diagnostics, ds.Perm ds' →
        diagnosticLines format color ds = diagnosticLines format color ds') ↔
          ds.SeveritySettled) := by
  refine ⟨⟨severitySettled_of_sorted_eq, fun h ds' => h.sorted_eq⟩, fun h => ?_,
    fun h ds' hperm => ?_⟩
  · exact severitySettled_of_sorted_eq fun ds' hperm =>
      eq_of_lines_eq (map_unranked_sorted hperm) (h ds' hperm)
  · rw [diagnosticLines, diagnosticLines, h.sorted_eq hperm]

/-- A report about a setting, as bad as is said. -/
def modeReport (severity : Severity) : Diagnostic where
  severity := severity
  rule := .configuration
  subject := "mode"
  message := "unknown mode 'guice'"

theorem sorted_modeReports_eq (a b : Severity) :
    sorted [modeReport a, modeReport b] = [modeReport a, modeReport b] :=
  List.mergeSort_of_pairwise (by cases a <;> cases b <;> decide +kernel)

/-- A warning and an error that agree in everything else are reported as they were recorded. -/
theorem sorted_modeReports :
    [modeReport .warning, modeReport .error].Perm [modeReport .error, modeReport .warning] ∧
      sorted [modeReport .warning, modeReport .error] ≠
        sorted [modeReport .error, modeReport .warning] ∧
      diagnosticLines .text false [modeReport .warning, modeReport .error] ≠
        diagnosticLines .text false [modeReport .error, modeReport .warning] := by
  refine ⟨List.Perm.swap _ _ _, ?_, ?_⟩
  · rw [sorted_modeReports_eq, sorted_modeReports_eq]
    decide
  · rw [diagnosticLines, diagnosticLines, sorted_modeReports_eq, sorted_modeReports_eq]
    decide +kernel

end Diagnostics

end ComponentWiring
