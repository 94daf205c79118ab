/-!
Character classes are given as closed ranges of code points. The tables of the neighbouring
modules (`Text.Alphabetic`, `Text.Numeric`, `Text.WordChar`) are read through `inRanges`.
-/

namespace ComponentWiring.Text

/-- Whether `n` lies in one of the closed ranges. -/
def inRanges (ranges : List (Nat × Nat)) (n : Nat) : Bool :=
  ranges.any fun r => r.1 ≤ n && n ≤ r.2

theorem inRanges_iff {ranges : List (Nat × Nat)} {n : Nat} :
    inRanges ranges n = true ↔ ∃ r ∈ ranges, r.1 ≤ n ∧ n ≤ r.2 := by
  simp [inRanges]

end ComponentWiring.Text
