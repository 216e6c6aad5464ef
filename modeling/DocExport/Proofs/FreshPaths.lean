import DocExport.Archive.Plan
import Mathlib.Data.List.Nodup
import Mathlib.Data.List.Perm.Subperm

/-!
# Fresh paths

A plan hands out a path for every entry.  A path that is taken already is numbered, and since
different numbers give different paths, the search for a free number never runs out before it
has found one.  So the entries of a plan have different paths.

The document itself is packaged under a name that the ledger does not know of.  That name is a
single path component, while a path in a directory has at least two.

* **Main results.** `Ledger.reserve_not_mem` says that a reserved path was free,
  `Plan.nodup_paths_ofDocument` that the entries of a plan have different paths, and
  `Plan.documentName_not_mem_paths` that none of them is the path of the document, provided that
  media are kept in directories.
-/

namespace DocExport.Archive

/-! ## Numbered paths -/

theorem pathIn_injective (dir : String) : Function.Injective (pathIn dir) := by
  intro a b h
  simp only [pathIn] at h
  split at h
  · exact h
  · exact (String.append_right_inj _).1 h

/-- Different numbers make different names. -/
theorem numberedName_injective (name : String) : Function.Injective (numberedName name) := by
  intro j k h
  simp only [numberedName] at h
  have hnumber := (String.append_right_inj _).1 ((String.append_left_inj _).1 h)
  have hdigits : Nat.toDigits 10 j = Nat.toDigits 10 k := by
    rw [← Nat.toList_repr, ← Nat.toList_repr]
    exact congrArg String.toList hnumber
  -- the digits of a number spell it
  simpa using congrArg (Nat.ofDigitChars 10 · 0) hdigits

/-- Where different numbers have different paths, no more numbers in a row have paths that are taken
than there are such paths. -/
theorem sub_le_length_of_injective {used : List String} {path : Nat → String}
    (hinj : Function.Injective path) {first next : Nat}
    (htaken : ∀ j, first ≤ j → j < next → path j ∈ used) : next - first ≤ used.length := by
  have hsubset : (List.range' first (next - first)).map path ⊆ used := by
    intro x hx
    obtain ⟨j, hj, rfl⟩ := List.mem_map.1 hx
    obtain ⟨hfirst, hnext⟩ := List.mem_range'_1.1 hj
    exact htaken j hfirst (by omega)
  have hdistinct : ((List.range' first (next - first)).map path).Nodup :=
    (List.nodup_range' 1).map hinj
  have hlength := (List.subperm_of_subset hdistinct hsubset).length_le
  rwa [List.length_map, List.length_range'] at hlength

/-- A search among numbers whose paths are all different ends at a free path, if it may pass
over as many numbers as there are paths taken. -/
theorem firstFree_not_mem_of_injective {used : List String} {path : Nat → String}
    (hinj : Function.Injective path) (k : Nat) :
    path (firstFree used path k used.length) ∉ used := by
  intro hmem
  have hlast : k + used.length ≤ firstFree used path k used.length :=
    Nat.le_of_not_lt fun hlt => firstFree_not_mem hlt hmem
  -- otherwise more different paths would be taken than there are
  have htaken : ∀ j, k ≤ j → j < firstFree used path k used.length + 1 → path j ∈ used := by
    intro j hkj hj
    rcases Nat.lt_succ_iff_lt_or_eq.1 hj with hlt | rfl
    · exact mem_of_lt_firstFree hkj hlt
    · exact hmem
  have hlength := sub_le_length_of_injective hinj htaken
  omega

/-! ## Reserving -/

namespace Ledger

/-- A reserved path was free. -/
theorem reserve_not_mem (l : Ledger) (dir name : String) : (l.reserve dir name).1 ∉ l.used := by
  unfold reserve
  dsimp only
  split
  · exact firstFree_not_mem_of_injective
      ((pathIn_injective dir).comp (numberedName_injective (safeName name))) _
  · assumption

theorem used_reserve (l : Ledger) (dir name : String) :
    (l.reserve dir name).2.used = (l.reserve dir name).1 :: l.used := by
  unfold reserve
  dsimp only
  split <;> rfl

theorem exists_reserve_eq_pathIn (l : Ledger) (dir name : String) :
    ∃ given, (l.reserve dir name).1 = pathIn dir given := by
  unfold reserve
  dsimp only
  split
  · exact ⟨_, rfl⟩
  · exact ⟨_, rfl⟩

end Ledger

/-- The paths reserved for a list of wants are different, and none was taken before. -/
theorem nodup_paths_reserveAll (settings : Settings) (ledger : Ledger) (ws : List Want) :
    ((reserveAll settings ledger ws).map Entry.path).Nodup ∧
      ∀ e ∈ reserveAll settings ledger ws, e.path ∉ ledger.used := by
  induction ws generalizing ledger with
  | nil => simp [reserveAll]
  | cons w ws ih =>
    have hfree := ledger.reserve_not_mem (settings.dirFor w.kind) w.media.name
    have hused := ledger.used_reserve (settings.dirFor w.kind) w.media.name
    obtain ⟨hnodup, hrest⟩ := ih (ledger.reserve (settings.dirFor w.kind) w.media.name).2
    rw [hused] at hrest
    constructor
    · rw [reserveAll, List.map_cons, List.nodup_cons]
      refine ⟨fun hmem => ?_, hnodup⟩
      obtain ⟨e, he, hpath⟩ := List.mem_map.1 hmem
      exact hrest e he (hpath ▸ List.mem_cons_self)
    · intro e he
      rcases List.mem_cons.1 he with rfl | he
      · exact hfree
      · exact fun hmem => hrest e he (List.mem_cons_of_mem _ hmem)

/-- The path of an entry stands in the directory for its kind. -/
theorem exists_path_eq_of_mem_reserveAll {settings : Settings} {ledger : Ledger} {ws : List Want}
    {e : Entry} (he : e ∈ reserveAll settings ledger ws) :
    ∃ given, e.path = pathIn (settings.dirFor e.kind) given := by
  induction ws generalizing ledger with
  | nil => exact absurd he List.not_mem_nil
  | cons w ws ih =>
    rcases List.mem_cons.1 he with rfl | he
    · exact ledger.exists_reserve_eq_pathIn (settings.dirFor w.kind) w.media.name
    · exact ih he

theorem map_target_reserveAll (settings : Settings) (ledger : Ledger) (ws : List Want) :
    (reserveAll settings ledger ws).map Entry.target = ws.map Want.target := by
  induction ws generalizing ledger with
  | nil => rfl
  | cons w ws ih => rw [reserveAll, List.map_cons, List.map_cons, ih]

/-! ## Names and paths -/

/-- A safe name is a single path component. -/
theorem slash_not_mem_safeName (name : String) : '/' ∉ (safeName name).toList := by
  unfold safeName
  dsimp only
  split
  · decide
  · rw [String.toList_ofList, cleaned, List.mem_map]
    rintro ⟨c, -, hc⟩
    split at hc
    · exact absurd hc (by decide)
    · rename_i hsafe
      exact hsafe (by rw [hc]; decide)

theorem slash_not_mem_stemOf (title : String) : '/' ∉ (stemOf title).toList := by
  unfold stemOf
  split
  · decide
  · exact slash_not_mem_safeName title

theorem slash_mem_pathIn {dir : String} (hdir : trimSlashes dir.toList ≠ []) (name : String) :
    '/' ∈ (pathIn dir name).toList := by
  unfold pathIn
  dsimp only
  rw [if_neg (by simpa using hdir)]
  simp

/-- Whether media are kept in directories of their own, and not at the top of the archive. -/
structure Settings.HasDirs (s : Settings) : Prop where
  images : trimSlashes s.imagesDir.toList ≠ []
  files : trimSlashes s.filesDir.toList ≠ []

theorem Settings.HasDirs.dirFor {s : Settings} (h : s.HasDirs) (kind : MediaKind) :
    trimSlashes (s.dirFor kind).toList ≠ [] := by
  cases kind with
  | image => exact h.images
  | file => exact h.files

/-! ## The names in an archive -/

namespace Plan

/-- **The entries of a plan have different paths.** -/
theorem nodup_paths_ofDocument (title : String) (d : Document) (slots : Slots)
    (settings : Settings) (style : Style) :
    ((ofDocument title d slots settings style).entries.map Entry.path).Nodup :=
  (nodup_paths_reserveAll settings {} (wants d slots)).1

/-- An entry that has the path of the document is kept at the top of the archive. -/
theorem trimSlashes_dirFor_eq_nil {title : String} {d : Document} {slots : Slots}
    {settings : Settings} {style : Style} {e : Entry}
    (he : e ∈ (ofDocument title d slots settings style).entries)
    (hpath : e.path = (ofDocument title d slots settings style).documentName) :
    trimSlashes (settings.dirFor e.kind).toList = [] := by
  obtain ⟨given, hgiven⟩ := exists_path_eq_of_mem_reserveAll he
  by_contra hdir
  have hslash : '/' ∈ (stemOf title ++ ".md").toList := by
    change e.path = stemOf title ++ ".md" at hpath
    rw [← hpath, hgiven]
    exact slash_mem_pathIn hdir given
  rw [String.toList_append, List.mem_append] at hslash
  rcases hslash with hstem | hext
  · exact slash_not_mem_stemOf title hstem
  · exact absurd hext (by decide)

/-- **No entry of a plan has the path of the document**, provided that media are kept in
directories. -/
theorem documentName_not_mem_paths {title : String} {d : Document} {slots : Slots}
    {settings : Settings} {style : Style} (hdirs : settings.HasDirs) :
    (ofDocument title d slots settings style).documentName ∉
      (ofDocument title d slots settings style).entries.map Entry.path := by
  intro hmem
  obtain ⟨e, he, hpath⟩ := List.mem_map.1 hmem
  exact hdirs.dirFor e.kind (trimSlashes_dirFor_eq_nil he hpath)

end Plan

end DocExport.Archive
