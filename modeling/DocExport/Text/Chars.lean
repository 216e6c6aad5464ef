/-!
# Replacing, dropping and counting characters

Small operations that the Markdown rules are written with: putting a fixed text in place of a
character, dropping a character from the end of a text, and finding how often a character stands in
a row.

* **Main results.** `dropEnd_append_ending` (dropping loses nothing but the end),
  `longestRun_replicate` (a row of `n` equal characters is found as `n`) and
  `longestRun_le_of_infix` (a part of a text has no longer rows than the text).
-/

namespace DocExport.Text

/-! ## Replacing -/

/-- A text with `new` in place of every `c`. -/
def replace (c : Char) (new : List Char) (cs : List Char) : List Char :=
  cs.flatMap fun x => if x = c then new else [x]

theorem replace_cons_self (c : Char) (new cs : List Char) :
    replace c new (c :: cs) = new ++ replace c new cs := by
  rw [replace, List.flatMap_cons, if_pos rfl, replace]

theorem replace_cons_of_ne {c x : Char} (h : x ≠ c) (new cs : List Char) :
    replace c new (x :: cs) = x :: replace c new cs := by
  rw [replace, List.flatMap_cons, if_neg h, replace, List.singleton_append]

/-- What replacing does not leave behind is gone. -/
theorem mem_of_mem_replace {c x : Char} {new cs : List Char} (h : x ∈ replace c new cs) :
    x ∈ new ∨ x ∈ cs ∧ x ≠ c := by
  obtain ⟨y, hy, hx⟩ := List.mem_flatMap.1 h
  by_cases hyc : y = c
  · rw [if_pos hyc] at hx
    exact .inl hx
  · rw [if_neg hyc, List.mem_singleton] at hx
    exact .inr (hx ▸ ⟨hy, hyc⟩)

/-! ## Ends -/

/-- A text without the `c`s at its end. -/
def dropEnd (c : Char) (cs : List Char) : List Char := (cs.reverse.dropWhile (· == c)).reverse

/-- The `c`s at the end of a text. -/
def ending (c : Char) (cs : List Char) : List Char := (cs.reverse.takeWhile (· == c)).reverse

/-- Dropping the `c`s at the end of a text loses nothing else. -/
theorem dropEnd_append_ending (c : Char) (cs : List Char) : dropEnd c cs ++ ending c cs = cs := by
  rw [dropEnd, ending, ← List.reverse_append, List.takeWhile_append_dropWhile,
    List.reverse_reverse]

theorem eq_of_mem_ending {c x : Char} {cs : List Char} (h : x ∈ ending c cs) : x = c :=
  beq_iff_eq.1 (List.all_eq_true.1 List.all_takeWhile x (List.mem_reverse.1 h))

/-- Rewriting that leaves the characters of a class alone, and only puts something before other
characters, commutes with dropping the characters of that class from the end of a text. -/
theorem reverse_dropWhile_flatMap {p : Char → Bool} {f : Char → List Char}
    (hkept : ∀ c, p c = true → f c = [c]) (hlast : ∀ c, ∃ front, f c = front ++ [c])
    (cs : List Char) :
    ((cs.flatMap f).reverse.dropWhile p).reverse = (cs.reverse.dropWhile p).reverse.flatMap f := by
  -- from behind, the text is met one character after the other
  obtain ⟨rs, rfl⟩ : ∃ rs : List Char, cs = rs.reverse := ⟨cs.reverse, by simp⟩
  induction rs with
  | nil => rfl
  | cons c rs ih =>
    rw [List.reverse_cons, List.flatMap_append, List.flatMap_singleton]
    by_cases hc : p c = true
    · rw [hkept c hc]
      simpa [hc] using ih
    · obtain ⟨front, hfront⟩ := hlast c
      simp [hc, hfront]

theorem dropEnd_append {c : Char} {cs ending : List Char} (h : ∀ x ∈ ending, x = c) :
    dropEnd c (cs ++ ending) = dropEnd c cs := by
  rw [dropEnd, dropEnd, List.reverse_append, List.dropWhile_append_of_pos]
  exact fun x hx => beq_iff_eq.2 (h x (List.mem_reverse.1 hx))

theorem dropEnd_concat {c x : Char} (hx : x ≠ c) (cs : List Char) :
    dropEnd c (cs ++ [x]) = cs ++ [x] := by
  rw [dropEnd, List.reverse_append, List.reverse_singleton, List.singleton_append,
    List.dropWhile_cons_of_neg (by simpa using hx), List.reverse_cons, List.reverse_reverse]

/-- A text that does not end in `c` has none to drop. -/
theorem dropEnd_eq_self {c : Char} {cs : List Char} (h : cs.getLast? ≠ some c) :
    dropEnd c cs = cs := by
  rcases List.eq_nil_or_concat cs with rfl | ⟨front, x, rfl⟩
  · rfl
  · rw [List.concat_eq_append] at h ⊢
    refine dropEnd_concat ?_ front
    intro hx
    rw [hx, List.getLast?_concat] at h
    exact h rfl

theorem head?_dropWhile_ne (c : Char) (cs : List Char) :
    (cs.dropWhile (· == c)).head? ≠ some c := by
  intro h
  have hkept := List.head?_dropWhile_not (· == c) cs
  rw [h] at hkept
  simp at hkept

theorem getLast?_dropEnd_ne (c : Char) (cs : List Char) : (dropEnd c cs).getLast? ≠ some c := by
  rw [dropEnd, List.getLast?_reverse]
  exact head?_dropWhile_ne c cs.reverse

theorem head?_dropEnd_ne {c x : Char} {cs : List Char} (h : cs.head? ≠ some x) :
    (dropEnd c cs).head? ≠ some x := by
  rw [← dropEnd_append_ending c cs] at h
  cases hdropped : dropEnd c cs with
  | nil => simp
  | cons y ys => simpa [hdropped] using h

/-! ## Runs -/

/-- A row of `c`s that ends before something else is cut off as it stands. -/
theorem takeWhile_replicate_append {c : Char} {rest : List Char} (h : rest.head? ≠ some c)
    (n : Nat) : (List.replicate n c ++ rest).takeWhile (· == c) = List.replicate n c := by
  have hrest : rest.takeWhile (· == c) = [] := by
    cases rest with
    | nil => rfl
    | cons x xs =>
      have hx : x ≠ c := fun hx => h (congrArg some hx)
      simp [hx]
  rw [List.takeWhile_append_of_pos, hrest, List.append_nil]
  intro x hx
  exact beq_iff_eq.2 (List.eq_of_mem_replicate hx)

theorem dropWhile_replicate_append {c : Char} {rest : List Char} (h : rest.head? ≠ some c)
    (n : Nat) : (List.replicate n c ++ rest).dropWhile (· == c) = rest := by
  have hsplit := List.takeWhile_append_dropWhile (p := (· == c)) (l := List.replicate n c ++ rest)
  rw [takeWhile_replicate_append h] at hsplit
  exact List.append_cancel_left hsplit

/-- The length of the longest stretch of `c`s, where `before` of them stand directly before
the text. -/
def longestRunAfter (c : Char) (before : Nat) : List Char → Nat
  | [] => before
  | x :: xs =>
      if x = c then longestRunAfter c (before + 1) xs
      else max before (longestRunAfter c 0 xs)

/-- The length of the longest stretch of `c`s in a text. -/
def longestRun (c : Char) (cs : List Char) : Nat := longestRunAfter c 0 cs

/-- The characters directly before a text count towards its longest stretch. -/
theorem le_longestRunAfter (c : Char) (before : Nat) (cs : List Char) :
    before ≤ longestRunAfter c before cs := by
  induction cs generalizing before with
  | nil => exact Nat.le_refl _
  | cons x xs ih =>
    by_cases hx : x = c
    · rw [longestRunAfter, if_pos hx]
      exact Nat.le_trans (Nat.le_succ _) (ih _)
    · rw [longestRunAfter, if_neg hx]
      exact Nat.le_max_left _ _

/-- A row of `n` equal characters has a stretch of length `n`. -/
theorem longestRun_replicate (c : Char) (n : Nat) : longestRun c (List.replicate n c) = n := by
  have h : ∀ k, longestRunAfter c k (List.replicate n c) = k + n := by
    induction n with
    | zero => intro k; rfl
    | succ n ih =>
      intro k
      rw [List.replicate_succ, longestRunAfter, if_pos rfl, ih]
      omega
  rw [longestRun, h, Nat.zero_add]

/-- The longer the row before a text, the longer its longest stretch. -/
theorem longestRunAfter_mono (c : Char) {before before' : Nat} (h : before ≤ before')
    (cs : List Char) : longestRunAfter c before cs ≤ longestRunAfter c before' cs := by
  induction cs generalizing before before' with
  | nil => exact h
  | cons x xs ih =>
    by_cases hx : x = c
    · rw [longestRunAfter, longestRunAfter, if_pos hx, if_pos hx]
      exact ih (Nat.succ_le_succ h)
    · rw [longestRunAfter, longestRunAfter, if_neg hx, if_neg hx]
      omega

/-- The beginning of a text has no longer stretches than the text. -/
theorem longestRunAfter_append_left (c : Char) (before : Nat) (xs ys : List Char) :
    longestRunAfter c before xs ≤ longestRunAfter c before (xs ++ ys) := by
  induction xs generalizing before with
  | nil => exact le_longestRunAfter c before ys
  | cons x xs ih =>
    by_cases hx : x = c
    · rw [List.cons_append, longestRunAfter, longestRunAfter, if_pos hx, if_pos hx]
      exact ih _
    · rw [List.cons_append, longestRunAfter, longestRunAfter, if_neg hx, if_neg hx]
      have := ih 0
      omega

/-- The end of a text has no longer stretches than the text. -/
theorem longestRun_append_right (c : Char) (before : Nat) (xs ys : List Char) :
    longestRun c ys ≤ longestRunAfter c before (xs ++ ys) := by
  induction xs generalizing before with
  | nil => exact longestRunAfter_mono c (Nat.zero_le before) ys
  | cons x xs ih =>
    by_cases hx : x = c
    · rw [List.cons_append, longestRunAfter, if_pos hx]
      exact ih _
    · rw [List.cons_append, longestRunAfter, if_neg hx]
      exact Nat.le_trans (ih 0) (Nat.le_max_right _ _)

/-- A part of a text has no longer stretches than the text. -/
theorem longestRun_le_of_infix (c : Char) {part cs : List Char} (h : part <:+: cs) :
    longestRun c part ≤ longestRun c cs := by
  obtain ⟨front, back, rfl⟩ := h
  rw [List.append_assoc]
  exact Nat.le_trans (longestRunAfter_append_left c 0 part back)
    (longestRun_append_right c 0 front (part ++ back))

end DocExport.Text
