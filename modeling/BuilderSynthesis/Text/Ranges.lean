/-
  BuilderSynthesis.Text.Ranges — character classes given as ranges of code points.
-/

namespace BuilderSynthesis.Text

/-- A character class as closed ranges of code points, in ascending order. -/
abbrev Ranges := List (Nat × Nat)

namespace Ranges

def contains (ranges : Ranges) (c : Char) : Bool :=
  ranges.any fun (first, last) => first ≤ c.toNat && c.toNat ≤ last

theorem contains_iff {ranges : Ranges} {c : Char} :
    ranges.contains c = true ↔ ∃ r ∈ ranges, r.1 ≤ c.toNat ∧ c.toNat ≤ r.2 := by
  simp [contains]

end Ranges

end BuilderSynthesis.Text
