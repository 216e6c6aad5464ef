import DocExport.Text.CaseTable

/-!
# Lower case

A text is put in lower case character by character, with two exceptions: a capital I with a dot
above becomes an i and a combining dot, and a capital sigma becomes a final sigma where it ends
a word.

* **Main results.** `lowercase_append_of_noSigma` says that without a sigma the two halves of a
  text can be lower-cased separately.
-/

namespace DocExport.Text

/-- The letter a case table row gives for a character, if the row covers it. -/
def CaseRow.lower? (r : CaseRow) (c : Char) : Option Char :=
  let n := c.toNat
  if r.first ≤ n ∧ n ≤ r.last ∧ (n - r.first) % r.step = 0 then
    some (Char.ofNat (n + r.distance).toNat)
  else none

/-- A character in lower case, wherever it stands. -/
def lowerChar (c : Char) : List Char :=
  if c = 'İ' then ['i', '\u0307']
  else [(lowercaseRows.findSome? (·.lower? c)).getD c]

/-- Whether the next character that is not looked past carries case. -/
def meetsCased (cs : List Char) : Bool :=
  match cs.dropWhile caseIgnorableRanges.mem with
  | [] => false
  | c :: _ => casedRanges.mem c

/-- A capital sigma in lower case; `before` is what stands before it, nearest first.  It is a
final sigma when a letter stands before it in the same word and none after it. -/
def lowerSigma (before after : List Char) : Char :=
  if meetsCased before && !meetsCased after then 'ς' else 'σ'

/-- The rest of a text in lower case; `before` is what stands before it, nearest first. -/
def lowercaseAfter (before : List Char) : List Char → List Char
  | [] => []
  | c :: cs =>
      (if c = 'Σ' then [lowerSigma before cs] else lowerChar c) ++ lowercaseAfter (c :: before) cs

/-- A text in lower case. -/
def lowercase (cs : List Char) : List Char := lowercaseAfter [] cs

theorem lowercaseAfter_of_noSigma (before cs : List Char) (h : 'Σ' ∉ cs) :
    lowercaseAfter before cs = cs.flatMap lowerChar := by
  induction cs generalizing before with
  | nil => rfl
  | cons c cs ih =>
    rw [List.mem_cons, not_or] at h
    rw [lowercaseAfter, if_neg (fun hc => h.1 hc.symm), ih _ h.2, List.flatMap_cons]

/-- Without a sigma the two halves of a text can be lower-cased separately. -/
theorem lowercase_append_of_noSigma (xs ys : List Char) (hx : 'Σ' ∉ xs) (hy : 'Σ' ∉ ys) :
    lowercase (xs ++ ys) = lowercase xs ++ lowercase ys := by
  have h : 'Σ' ∉ xs ++ ys := by simp [hx, hy]
  rw [lowercase, lowercase, lowercase, lowercaseAfter_of_noSigma _ _ h,
    lowercaseAfter_of_noSigma _ _ hx, lowercaseAfter_of_noSigma _ _ hy, List.flatMap_append]

end DocExport.Text
