/-!
# Decimal numbers

Reading a natural number that is written with decimal digits and nothing else.

* **Main results.** `decimal?_append_digit` says what one more digit makes of a number.
-/

namespace DocExport.Text

/-- The value of a decimal digit. -/
def digit? (c : Char) : Option Nat :=
  if '0' ≤ c ∧ c ≤ '9' then some (c.toNat - '0'.toNat) else none

/-- The number that a row of decimal digits spells. -/
def decimal? (cs : List Char) : Option Nat :=
  if cs.isEmpty then none
  else cs.foldlM (fun n c => (digit? c).map (10 * n + ·)) 0

/-- One more digit makes a number ten times as great and adds the digit. -/
theorem decimal?_append_digit {cs : List Char} {c : Char} {n d : Nat} (hn : decimal? cs = some n)
    (hd : digit? c = some d) : decimal? (cs ++ [c]) = some (10 * n + d) := by
  cases cs with
  | nil => simp [decimal?] at hn
  | cons b bs =>
    simp only [decimal?, List.isEmpty_cons, Bool.false_eq_true, if_false, List.cons_append] at hn ⊢
    rw [← List.cons_append, List.foldlM_append, hn]
    simp [hd]

end DocExport.Text
