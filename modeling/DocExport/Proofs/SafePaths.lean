import DocExport.Proofs.LeastNumbers

/-!
# Paths stay in their directory

Names come from documents and may hold anything, and so may the directories that are asked for.  A
path that is handed out is made of the directory and one component more, and that component means
nothing special anywhere, whether the name itself was free or had to be numbered.

* **Main results.** `isComponent_safeName` and `safeName_eq_self` (a safe name is a component, and
  making it safe again changes nothing), `isComponent_numberedName` (nor does a number make it
  unsafe), `Ledger.staysIn_reserve` (one request) and `Ledger.reserveEach_staysIn` (any sequence of
  requests).
-/

namespace DocExport.Archive

/-! ## Components -/

/-- One component of a path that means nothing special anywhere. -/
structure IsComponent (cs : List Char) : Prop where
  /-- There is something to it. -/
  ne_nil : cs ≠ []
  /-- It is not the name of the directory it stands in. -/
  ne_dot : cs ≠ ['.']
  /-- It is not the name of the directory above. -/
  ne_dots : cs ≠ ['.', '.']
  /-- It holds nothing that separates components anywhere. -/
  separators : ∀ c ∈ cs, c ≠ '/' ∧ c ≠ '\\' ∧ c ≠ ':'
  /-- It holds no control character, and so not the character zero. -/
  controls : ∀ c ∈ cs, c ≠ '\x00' ∧ Text.isControl c = false

/-- A component is what is neither reserved nor holds an unsafe character. -/
theorem isComponent_iff {cs : List Char} :
    IsComponent cs ↔ isReserved cs = false ∧ ∀ c ∈ cs, isUnsafe c = false := by
  have hreserved : isReserved cs = false ↔ cs ≠ [] ∧ cs ≠ ['.'] ∧ cs ≠ ['.', '.'] := by
    simp [isReserved, and_assoc]
  have hchar : ∀ c, isUnsafe c = false ↔
      (c ≠ '/' ∧ c ≠ '\\' ∧ c ≠ ':') ∧ Text.isControl c = false := by
    simp [isUnsafe, and_assoc]
  rw [hreserved]
  constructor
  · intro h
    exact ⟨⟨h.ne_nil, h.ne_dot, h.ne_dots⟩, fun c hc =>
      (hchar c).2 ⟨h.separators c hc, (h.controls c hc).2⟩⟩
  · rintro ⟨⟨hnil, hdot, hdots⟩, hsafe⟩
    refine ⟨hnil, hdot, hdots, fun c hc => ((hchar c).1 (hsafe c hc)).1, fun c hc => ?_⟩
    have hcontrol := ((hchar c).1 (hsafe c hc)).2
    refine ⟨?_, hcontrol⟩
    rintro rfl
    exact absurd hcontrol (by decide)

/-! ## Safe names -/

theorem isUnsafe_of_mem_cleaned {cs : List Char} {c : Char} (h : c ∈ cleaned cs) :
    isUnsafe c = false := by
  obtain ⟨x, -, rfl⟩ := List.mem_map.1 h
  split
  · decide
  · rename_i hsafe
    exact Bool.eq_false_iff.2 hsafe

/-- Putting underscores in the place of characters brings no blank to an end. -/
theorem isTrimmed_cleaned (cs : List Char) : Text.IsTrimmed (cleaned cs) := by
  have hshows : ∀ c, Text.isBlank c = false →
      Text.isBlank (if isUnsafe c then '_' else c) = false := by
    intro c hc
    split
    · decide
    · exact hc
  have htrim := Text.isTrimmed_trim cs
  constructor
  · intro c hc
    rw [cleaned, List.head?_map] at hc
    obtain ⟨x, hx, rfl⟩ := Option.map_eq_some_iff.1 hc
    exact hshows x (htrim.head x hx)
  · intro c hc
    rw [cleaned, List.getLast?_map] at hc
    obtain ⟨x, hx, rfl⟩ := Option.map_eq_some_iff.1 hc
    exact hshows x (htrim.last x hx)

theorem cleaned_eq_self {cs : List Char} (htrim : Text.IsTrimmed cs)
    (hsafe : ∀ c ∈ cs, isUnsafe c = false) : cleaned cs = cs := by
  calc cleaned cs = cs.map fun c => if isUnsafe c then '_' else c := by
        rw [cleaned, Text.trim_eq_self htrim]
    _ = cs.map id := List.map_congr_left fun c hc => by rw [hsafe c hc]; rfl
    _ = cs := List.map_id cs

/-- A safe name is a component. -/
theorem isComponent_safeName (name : String) : IsComponent (safeName name).toList := by
  unfold safeName
  dsimp only
  split
  · exact isComponent_iff.2 ⟨by decide, by simp [isUnsafe, Text.isControl]⟩
  · rename_i hreserved
    rw [String.toList_ofList]
    exact isComponent_iff.2 ⟨Bool.eq_false_iff.2 hreserved, fun c => isUnsafe_of_mem_cleaned⟩

theorem isTrimmed_safeName (name : String) : Text.IsTrimmed (safeName name).toList := by
  unfold safeName
  dsimp only
  split
  · exact ⟨by simp [Text.isBlank], by simp [Text.isBlank]⟩
  · rw [String.toList_ofList]
    exact isTrimmed_cleaned name.toList

/-- A component with no blank at either end is safe as it is. -/
theorem safeName_eq_self {name : String} (hcomponent : IsComponent name.toList)
    (htrim : Text.IsTrimmed name.toList) : safeName name = name := by
  obtain ⟨hreserved, hsafe⟩ := isComponent_iff.1 hcomponent
  unfold safeName
  dsimp only
  rw [cleaned_eq_self htrim hsafe, hreserved]
  exact String.ofList_toList

/-! ## Numbered names -/

/-- A digit is safe. -/
theorem isUnsafe_of_isDigit {c : Char} (h : c.isDigit = true) : isUnsafe c = false := by
  have hrange : 48 ≤ c.toNat ∧ c.toNat ≤ 57 := by
    simpa [Char.isDigit, Char.le_def, UInt32.le_iff_toNat_le] using h
  have hother : ∀ x : Char, x.toNat < 48 ∨ 57 < x.toNat → c ≠ x := by
    rintro x hx rfl
    omega
  simp only [isUnsafe, Text.isControl, Bool.or_eq_false_iff, Bool.and_eq_false_iff,
    beq_eq_false_iff_ne, decide_eq_false_iff_not]
  exact ⟨⟨⟨hother _ (by decide), hother _ (by decide)⟩, hother _ (by decide)⟩, by omega, by omega⟩

/-- The characters of a numbered name are those of the name, a hyphen and digits. -/
theorem mem_numberedName {name : String} {k : Nat} {c : Char}
    (h : c ∈ (numberedName name k).toList) :
    c ∈ name.toList ∨ c = '-' ∨ c.isDigit = true := by
  have hname := splitExtension_append name.toList
  simp only [numberedName, String.toList_append, String.toList_ofList, List.mem_append] at h
  rcases h with ((h | h) | h) | h
  · exact .inl (hname ▸ List.mem_append_left _ h)
  · exact .inr (.inl (List.mem_singleton.1 h))
  · have hdigits : c ∈ Nat.toDigits 10 k := by
      rw [← Nat.toList_repr]
      exact h
    exact .inr (.inr (Nat.isDigit_of_mem_toDigits (by decide) (by decide) hdigits))
  · exact .inl (hname ▸ List.mem_append_right _ h)

theorem hyphen_mem_numberedName (name : String) (k : Nat) :
    '-' ∈ (numberedName name k).toList := by
  simp [numberedName]

/-- A component with a number is a component. -/
theorem isComponent_numberedName {name : String} (h : IsComponent name.toList) (k : Nat) :
    IsComponent (numberedName name k).toList := by
  obtain ⟨-, hsafe⟩ := isComponent_iff.1 h
  refine isComponent_iff.2 ⟨?_, fun c hc => ?_⟩
  · -- no reserved name has a hyphen
    have hhyphen := hyphen_mem_numberedName name k
    simp only [isReserved, Bool.or_eq_false_iff, beq_eq_false_iff_ne]
    refine ⟨⟨?_, ?_⟩, ?_⟩ <;> intro heq <;> rw [heq] at hhyphen <;>
      exact absurd hhyphen (by decide)
  · rcases mem_numberedName hc with hname | rfl | hdigit
    · exact hsafe c hname
    · decide
    · exact isUnsafe_of_isDigit hdigit

/-! ## Directories -/

/-- A text without the slashes at either end. -/
structure IsWithoutSlashes (cs inner : List Char) : Prop where
  /-- Nothing but slashes is left out. -/
  between : ∃ before after, cs = before ++ inner ++ after ∧
    (∀ c ∈ before, c = '/') ∧ ∀ c ∈ after, c = '/'
  /-- No slash is left in front. -/
  head : inner.head? ≠ some '/'
  /-- No slash is left at the end. -/
  last : inner.getLast? ≠ some '/'

/-- The name of a directory is used without the slashes at either end. -/
theorem isWithoutSlashes_trimSlashes (cs : List Char) : IsWithoutSlashes cs (trimSlashes cs) where
  between := by
    refine ⟨cs.takeWhile (· == '/'), Text.ending '/' (cs.dropWhile (· == '/')), ?_, ?_, ?_⟩
    · rw [List.append_assoc]
      show _ = _ ++ (Text.dropEnd '/' (cs.dropWhile (· == '/')) ++ _)
      rw [Text.dropEnd_append_ending, List.takeWhile_append_dropWhile]
    · intro c hc
      exact beq_iff_eq.1 (List.all_eq_true.1 List.all_takeWhile c hc)
    · exact fun c => Text.eq_of_mem_ending
  head := Text.head?_dropEnd_ne (Text.head?_dropWhile_ne '/' cs)
  last := Text.getLast?_dropEnd_ne '/' (cs.dropWhile (· == '/'))

theorem toList_pathIn (dir name : String) :
    (pathIn dir name).toList =
      if trimSlashes dir.toList = [] then name.toList
      else trimSlashes dir.toList ++ '/' :: name.toList := by
  by_cases h : trimSlashes dir.toList = [] <;> simp [pathIn, h]

/-! ## Requests -/

/-- A path that was handed out for a name stays in the directory it was asked for in: it is made of
that directory, without the slashes at its ends, and one component more, which is the safe name or
the safe name with a number. -/
def StaysIn (dir name path : String) : Prop :=
  ∃ inner given, IsWithoutSlashes dir.toList inner ∧ IsComponent given.toList ∧
    (path.toList = if inner = [] then given.toList else inner ++ '/' :: given.toList) ∧
    (given = safeName name ∨ ∃ k, given = numberedName (safeName name) k)

theorem staysIn_pathIn {dir name given : String} (hcomponent : IsComponent given.toList)
    (hgiven : given = safeName name ∨ ∃ k, given = numberedName (safeName name) k) :
    StaysIn dir name (pathIn dir given) :=
  ⟨trimSlashes dir.toList, given, isWithoutSlashes_trimSlashes dir.toList, hcomponent,
    toList_pathIn dir given, hgiven⟩

namespace Ledger

/-- A path that is handed out stays in its directory, whatever is taken. -/
theorem staysIn_reserve (l : Ledger) (dir name : String) :
    StaysIn dir name (l.reserve dir name).1 := by
  have hsafe := isComponent_safeName name
  by_cases htaken : pathIn dir (safeName name) ∈ l.used
  · rw [reserve_of_mem htaken]
    exact staysIn_pathIn (isComponent_numberedName hsafe _) (.inr ⟨_, rfl⟩)
  · rw [reserve_of_not_mem htaken]
    exact staysIn_pathIn hsafe (.inl rfl)

/-- **Every path that a ledger hands out stays in the directory that was asked for**, whatever the
requests are and whatever paths are taken.  Making a name safe a second time changes nothing, and a
safe name has no blank at either end. -/
theorem reserveEach_staysIn (l : Ledger) (requests : List (String × String)) :
    List.Forall₂ (fun request path => StaysIn request.1 request.2 path) requests
        (l.reserveEach requests).1 ∧
      ∀ name, safeName (safeName name) = safeName name ∧
        Text.IsTrimmed (safeName name).toList := by
  constructor
  · induction requests generalizing l with
    | nil => exact .nil
    | cons request requests ih =>
      exact .cons (l.staysIn_reserve request.1 request.2) (ih _)
  · intro name
    have htrim := isTrimmed_safeName name
    exact ⟨safeName_eq_self (isComponent_safeName name) htrim, htrim⟩

example : (({} : Ledger).reserveEach
    [("//a", " ../b\n"), ("a/", ".._b\n"), ("", ".."), ("/", "..")]).1 =
      ["a/.._b", "a/.-1._b", "untitled", "untitled-1"] := by decide

end Ledger

end DocExport.Archive
