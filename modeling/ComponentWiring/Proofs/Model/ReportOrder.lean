import Mathlib.Data.List.Sort
import ComponentWiring.Model.Diagnostic

/-!
The order of a report. `Diagnostic.order` is a total order on everything but the severity, so that
diagnostics of one severity come in one order however they were recorded
(`sorted_eq_of_perm`).
-/

namespace ComponentWiring

open Std

theorem isLE_total {α : Type} (cmp : α → α → Ordering) [OrientedCmp cmp] (a b : α) :
    ((cmp a b).isLE || (cmp b a).isLE) = true := by
  have hswap : cmp b a = (cmp a b).swap := OrientedCmp.eq_swap
  rw [hswap]
  cases cmp a b <;> rfl

theorem pairwise_mergeSort {α : Type} (cmp : α → α → Ordering) [TransCmp cmp] (l : List α) :
    (l.mergeSort fun a b => (cmp a b).isLE).Pairwise fun a b => (cmp a b).isLE = true :=
  List.pairwise_mergeSort (fun _ _ _ => TransCmp.isLE_trans) (isLE_total cmp) l

/-- Sorting by an order that tells the members of a list apart forgets in which order they came. -/
theorem mergeSort_eq_of_perm {α : Type} (cmp : α → α → Ordering) [TransCmp cmp] {l l' : List α}
    (hperm : l.Perm l') (hsame : ∀ a ∈ l, ∀ b ∈ l, cmp a b = .eq → a = b) :
    l.mergeSort (fun a b => (cmp a b).isLE) = l'.mergeSort (fun a b => (cmp a b).isLE) := by
  refine List.Perm.eq_of_pairwise (fun a b ha hb hab hba => ?_) (pairwise_mergeSort cmp l)
    (pairwise_mergeSort cmp l')
    (((List.mergeSort_perm _ _).trans hperm).trans (List.mergeSort_perm _ _).symm)
  exact hsame a (List.mem_mergeSort.mp ha) b (hperm.mem_iff.mpr (List.mem_mergeSort.mp hb))
    (OrientedCmp.isLE_antisymm hab hba)

theorem Rule.rank_injective : Function.Injective Rule.rank := by
  intro a b h
  cases a <;> cases b <;> first | rfl | cases h

namespace Diagnostic

/-- The order of places in one file and across files. -/
def comparePlaces : Location → Location → Ordering :=
  compareLex (compareOn Location.file) (compareOn Location.line)

instance : TransCmp comparePlaces :=
  inferInstanceAs (TransCmp (compareLex (compareOn Location.file) (compareOn Location.line)))

instance : TransCmp compareLocations where
  eq_swap {a b} := by
    rcases a with _ | a <;> rcases b with _ | b
    · rfl
    · rfl
    · rfl
    · have hswap : comparePlaces a b = (comparePlaces b a).swap := OrientedCmp.eq_swap
      exact hswap
  isLE_trans {a b c} hab hbc := by
    rcases a with _ | a
    · cases c <;> rfl
    rcases b with _ | b
    · cases hab
    rcases c with _ | c
    · cases hbc
    have htrans : (comparePlaces a b).isLE → (comparePlaces b c).isLE →
        (comparePlaces a c).isLE := TransCmp.isLE_trans
    exact htrans hab hbc

theorem eq_of_compareLocations_eq {a b : Option Location} (h : compareLocations a b = .eq) :
    a = b := by
  rcases a with _ | a <;> rcases b with _ | b
  · rfl
  · cases h
  · cases h
  · obtain ⟨hfile, hline⟩ := Ordering.then_eq_eq.mp h
    have hfile := LawfulEqOrd.eq_of_compare hfile
    have hline := LawfulEqOrd.eq_of_compare hline
    cases a
    cases b
    simp_all

instance : TransCmp order :=
  inferInstanceAs (TransCmp (compareLex (Ordering.byKey location compareLocations)
    (compareLex (compareOn subject) (compareLex (compareOn (·.rule.rank)) (compareOn message)))))

/-- Diagnostics of one severity that the order of a report does not tell apart are the same. -/
theorem eq_of_order_eq {a b : Diagnostic} (hseverity : a.severity = b.severity)
    (h : order a b = .eq) : a = b := by
  obtain ⟨hlocation, h⟩ := Ordering.then_eq_eq.mp h
  obtain ⟨hsubject, h⟩ := Ordering.then_eq_eq.mp h
  obtain ⟨hrank, hmessage⟩ := Ordering.then_eq_eq.mp h
  have hlocation := eq_of_compareLocations_eq hlocation
  have hsubject := LawfulEqOrd.eq_of_compare hsubject
  have hmessage := LawfulEqOrd.eq_of_compare hmessage
  have hrule := Rule.rank_injective (LawfulEqOrd.eq_of_compare hrank)
  cases a
  cases b
  simp_all

end Diagnostic

/-- Reports of one severity come in one order, however they were recorded. -/
theorem Diagnostics.sorted_eq_of_perm {ds ds' : Diagnostics} (severity : Severity)
    (hperm : ds.Perm ds') (hseverity : ∀ d ∈ ds, d.severity = severity) :
    ds.sorted = ds'.sorted :=
  mergeSort_eq_of_perm Diagnostic.order hperm fun a ha b hb =>
    Diagnostic.eq_of_order_eq ((hseverity a ha).trans (hseverity b hb).symm)

end ComponentWiring
