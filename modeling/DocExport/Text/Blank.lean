/-!
# Blank and control characters

Text is inspected as a `List Char`: one element for each Unicode scalar value, which is
also the unit every length in this library counts.  This file fixes which characters are
*blank* (Unicode's property `White_Space`) and which are *control* characters, and how
blanks are trimmed from the two ends of a text.

* **Main results.** `trimmed_between` cuts a text into its leading blanks, its trimmed
  middle and its trailing blanks, and `isTrimmed_trim` says that no blank is left at either end.
-/

namespace DocExport.Text

/-! ## Character classes -/

/-- The blank characters: the twenty-five members of Unicode's `White_Space`. -/
def isBlank (c : Char) : Bool :=
  let n := c.toNat
  (0x09 ≤ n && n ≤ 0x0D) || n == 0x20 || n == 0x85 || n == 0xA0 || n == 0x1680 ||
    (0x2000 ≤ n && n ≤ 0x200A) || n == 0x2028 || n == 0x2029 || n == 0x202F || n == 0x205F ||
    n == 0x3000

/-- The control characters: those below the space, the delete character, and the block
from `U+0080` to `U+009F`. -/
def isControl (c : Char) : Bool :=
  c.toNat < 0x20 || (0x7F ≤ c.toNat && c.toNat ≤ 0x9F)

theorem ne_of_isBlank_eq_false {c b : Char} (hc : isBlank c = false) (hb : isBlank b = true) :
    c ≠ b := by
  rintro rfl
  exact Bool.false_ne_true (hc.symm.trans hb)

theorem isBlank_of_isDigit {c : Char} (h : c.isDigit = true) : isBlank c = false := by
  have hrange : 48 ≤ c.toNat ∧ c.toNat ≤ 57 := by
    simpa [Char.isDigit, Char.le_def, UInt32.le_iff_toNat_le] using h
  simp only [isBlank, Bool.or_eq_false_iff, Bool.and_eq_false_iff, decide_eq_false_iff_not,
    beq_eq_false_iff_ne]
  omega

/-! ## Trimming -/

/-- A text without its leading blanks. -/
def trimStart (cs : List Char) : List Char := cs.dropWhile isBlank

/-- A text without its trailing blanks. -/
def trimEnd (cs : List Char) : List Char := (cs.reverse.dropWhile isBlank).reverse

/-- A text without the blanks at either end. -/
def trim (cs : List Char) : List Char := trimEnd (trimStart cs)

/-- The blanks a text begins with. -/
def leadingBlanks (cs : List Char) : List Char := cs.takeWhile isBlank

/-- The blanks a text ends with. -/
def trailingBlanks (cs : List Char) : List Char := (cs.reverse.takeWhile isBlank).reverse

/-- A text with no character that shows: it is empty or all of it is blank. -/
def allBlank (cs : List Char) : Bool := cs.all isBlank

theorem trimEnd_append_trailingBlanks (cs : List Char) :
    trimEnd cs ++ trailingBlanks cs = cs := by
  rw [trimEnd, trailingBlanks, ← List.reverse_append, List.takeWhile_append_dropWhile,
    List.reverse_reverse]

theorem allBlank_leadingBlanks (cs : List Char) : allBlank (leadingBlanks cs) = true :=
  List.all_takeWhile

theorem allBlank_trailingBlanks (cs : List Char) : allBlank (trailingBlanks cs) = true := by
  rw [allBlank, trailingBlanks, List.all_reverse]
  exact List.all_takeWhile

/-- What ends in a character that shows stays in front of a text that is trimmed. -/
theorem trimEnd_append_of_shown (as bs : List Char) {c : Char} (hc : isBlank c = false) :
    trimEnd (as ++ [c] ++ bs) = as ++ [c] ++ trimEnd bs := by
  have hfront : (c :: as.reverse).dropWhile isBlank = c :: as.reverse := by
    rw [List.dropWhile_cons, hc]
    rfl
  rw [trimEnd, trimEnd, List.reverse_append, List.reverse_append, List.reverse_singleton,
    List.singleton_append, List.dropWhile_append, hfront]
  split
  · rename_i hall
    rw [List.isEmpty_iff.1 hall]
    simp
  · simp

theorem leadingBlanks_append_trimStart (cs : List Char) :
    leadingBlanks cs ++ trimStart cs = cs :=
  List.takeWhile_append_dropWhile

/-- Every text is its leading blanks, its trimmed middle and the blanks that end the rest. -/
theorem trimmed_between (cs : List Char) :
    leadingBlanks cs ++ trim cs ++ trailingBlanks (trimStart cs) = cs := by
  rw [List.append_assoc, trim, trimEnd_append_trailingBlanks, leadingBlanks_append_trimStart]

/-- A text that shows keeps the blanks it ends with when those it begins with are removed. -/
theorem trailingBlanks_trimStart {cs : List Char} (h : allBlank cs = false) :
    trailingBlanks (trimStart cs) = trailingBlanks cs := by
  have hshows : allBlank (trimStart cs) ≠ true := by
    intro hrest
    rw [← leadingBlanks_append_trimStart cs, allBlank, List.all_append] at h
    exact Bool.false_ne_true (h.symm.trans (Bool.and_eq_true_iff.2 ⟨List.all_takeWhile, hrest⟩))
  -- from behind, the blanks end inside what is left
  have hends :
      ((trimStart cs).reverse.takeWhile isBlank).length ≠ (trimStart cs).reverse.length := by
    intro hlength
    have hall : (trimStart cs).reverse.takeWhile isBlank = (trimStart cs).reverse :=
      (List.takeWhile_prefix _).eq_of_length hlength
    apply hshows
    rw [allBlank, ← List.all_reverse, ← hall]
    exact List.all_takeWhile
  calc trailingBlanks (trimStart cs)
      = trailingBlanks (leadingBlanks cs ++ trimStart cs) := by
        rw [trailingBlanks, trailingBlanks, List.reverse_append, List.takeWhile_append,
          if_neg hends]
    _ = trailingBlanks cs := by rw [leadingBlanks_append_trimStart]

theorem trimmed_between_of_shows {cs : List Char} (h : allBlank cs = false) :
    leadingBlanks cs ++ trim cs ++ trailingBlanks cs = cs := by
  rw [← trailingBlanks_trimStart h, trimmed_between]

/-- What is left after the leading blanks is empty exactly when all was blank. -/
theorem trimStart_eq_nil (cs : List Char) : trimStart cs = [] ↔ allBlank cs = true := by
  induction cs with
  | nil => simp [trimStart, allBlank]
  | cons c cs ih =>
    by_cases hc : isBlank c = true
    · simp only [trimStart, allBlank, List.all_cons, hc, Bool.true_and] at ih ⊢
      rwa [List.dropWhile_cons_of_pos hc]
    · simp [trimStart, allBlank, hc]

theorem trimEnd_eq_nil (cs : List Char) : trimEnd cs = [] ↔ allBlank cs = true := by
  rw [trimEnd, List.reverse_eq_nil_iff]
  show trimStart cs.reverse = [] ↔ allBlank cs = true
  rw [trimStart_eq_nil, allBlank, allBlank, List.all_reverse]

/-- No blank at either end. -/
structure IsTrimmed (cs : List Char) : Prop where
  head : ∀ c ∈ cs.head?, isBlank c = false
  last : ∀ c ∈ cs.getLast?, isBlank c = false

/-- What is trimmed has no blank at either end. -/
theorem isTrimmed_trim (cs : List Char) : IsTrimmed (trim cs) := by
  have hhead : ∀ c ∈ (trimStart cs).head?, isBlank c = false := by
    intro c hc
    have hkept := List.head?_dropWhile_not isBlank cs
    rw [← trimStart, Option.mem_def.1 hc] at hkept
    exact hkept
  refine ⟨fun c hc => hhead c ?_, fun c hc => ?_⟩
  · -- the end is cut off behind the first character
    rw [← trimEnd_append_trailingBlanks (trimStart cs), List.head?_append,
      show (trimEnd (trimStart cs)).head? = some c from hc]
    rfl
  · have hkept := List.head?_dropWhile_not isBlank (trimStart cs).reverse
    rw [trim, trimEnd, List.getLast?_reverse] at hc
    rw [Option.mem_def.1 hc] at hkept
    exact hkept

/-- A text with no blank at either end stays as it is. -/
theorem trim_eq_self {cs : List Char} (h : IsTrimmed cs) : trim cs = cs := by
  have hfront : ∀ xs : List Char, (∀ c ∈ xs.head?, isBlank c = false) →
      xs.dropWhile isBlank = xs := by
    intro xs hxs
    cases xs with
    | nil => rfl
    | cons c xs => exact List.dropWhile_cons_of_neg (by simpa using hxs c rfl)
  have hend : cs.reverse.dropWhile isBlank = cs.reverse :=
    hfront _ fun c hc => h.last c (by rwa [List.head?_reverse] at hc)
  rw [trim, trimStart, hfront cs h.head, trimEnd, hend, List.reverse_reverse]

end DocExport.Text
