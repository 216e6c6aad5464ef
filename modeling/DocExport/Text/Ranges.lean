/-!
# Ranges of characters

Character properties are given as ascending ranges of scalar values.

* **Main results.** `Ranges.mem` says whether a character lies in one of the ranges.
-/

namespace DocExport.Text

/-- Ascending ranges of scalar values, each with its first and its last member. -/
abbrev Ranges := Array (Nat × Nat)

/-- Whether a character lies in one of the ranges. -/
def Ranges.mem (rs : Ranges) (c : Char) : Bool :=
  rs.any fun r => r.1 ≤ c.toNat && c.toNat ≤ r.2

end DocExport.Text
