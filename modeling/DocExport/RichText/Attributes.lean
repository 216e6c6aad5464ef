/-!
# Attributes of a run

A run of text carries named attributes in the order in which they were declared.  A name
occurs once: declaring it again changes its value and not its place.

* **Main results.** `get?_set` says what is read after a change, and `names_set` where a name
  stands after it.
-/

namespace DocExport

/-- Put a value under a name: in place where the name occurs, and at the end otherwise. -/
def setEntry (name value : String) : List (String × String) → List (String × String)
  | [] => [(name, value)]
  | (n, v) :: rest => if n = name then (n, value) :: rest else (n, v) :: setEntry name value rest

/-- A change leaves the names and their order alone, but for a new name at the end. -/
theorem map_fst_setEntry (name value : String) (es : List (String × String)) :
    (setEntry name value es).map Prod.fst =
      if name ∈ es.map Prod.fst then es.map Prod.fst else es.map Prod.fst ++ [name] := by
  induction es with
  | nil => simp [setEntry]
  | cons e es ih =>
    by_cases h : e.1 = name
    · simp [setEntry, h]
    · have h' : name ≠ e.1 := fun he => h he.symm
      by_cases hm : name ∈ es.map Prod.fst
      · simp only [setEntry, if_neg h, List.map_cons, ih, List.mem_cons, hm, or_true,
          if_true]
      · simp only [setEntry, if_neg h, List.map_cons, ih, List.mem_cons, hm, h',
          or_self, if_false, List.cons_append]

/-- Named values in the order of their declaration; every name occurs once. -/
structure Attributes where
  /-- The names with their values. -/
  entries : List (String × String) := []
  /-- No name occurs twice. -/
  nodup : (entries.map Prod.fst).Nodup := by exact List.nodup_nil

namespace Attributes

instance : Inhabited Attributes := ⟨{}⟩

/-- Declare an attribute, or change the value of one that was declared before. -/
def set (a : Attributes) (name value : String) : Attributes where
  entries := setEntry name value a.entries
  nodup := by
    rw [map_fst_setEntry]
    split
    · exact a.nodup
    · rename_i h
      refine List.nodup_append.2 ⟨a.nodup, by simp, ?_⟩
      intro n hn m hm
      rw [List.mem_singleton] at hm
      exact fun he => h (hm ▸ he ▸ hn)

/-- The attributes that a list of declarations leaves behind. -/
def ofList (es : List (String × String)) : Attributes :=
  es.foldl (fun a e => a.set e.1 e.2) {}

/-- The declared names in order. -/
def names (a : Attributes) : List String := a.entries.map Prod.fst

/-- The value of an attribute, if it is declared. -/
def get? (a : Attributes) (name : String) : Option String := a.entries.lookup name

/-- Whether an attribute is declared. -/
def contains (a : Attributes) (name : String) : Bool := a.names.contains name

/-- An attribute is declared exactly when it has a value. -/
theorem isSome_get? (a : Attributes) (name : String) : (a.get? name).isSome = a.contains name := by
  rw [Bool.eq_iff_iff, get?, List.lookup_isSome_iff, contains, List.contains_iff_mem, names,
    List.mem_map]
  constructor
  · rintro ⟨e, he, hname⟩
    exact ⟨e, he, (beq_iff_eq.1 hname).symm⟩
  · rintro ⟨e, he, hname⟩
    exact ⟨e, he, beq_iff_eq.2 hname.symm⟩

/-- The names after a change: the same ones in the same order, and a new one at the end. -/
theorem names_set (a : Attributes) (name value : String) :
    (a.set name value).names = if name ∈ a.names then a.names else a.names ++ [name] :=
  map_fst_setEntry name value a.entries

/-- After a change the changed name reads the new value and every other name what it did. -/
theorem get?_set (a : Attributes) (name value other : String) :
    (a.set name value).get? other = if other = name then some value else a.get? other := by
  have hcons : ∀ (n v : String) (es : List (String × String)),
      List.lookup other ((n, v) :: es) = if other = n then some v else es.lookup other := by
    intro n v es
    by_cases hn : other = n
    · simp [hn]
    · simp [hn, List.lookup_cons, beq_eq_false_iff_ne.2 hn]
  have h : ∀ es : List (String × String), (setEntry name value es).lookup other =
      if other = name then some value else es.lookup other := by
    intro es
    induction es with
    | nil => rw [setEntry, hcons]
    | cons e es ih =>
      obtain ⟨n, v⟩ := e
      by_cases hn : n = name
      · by_cases ho : other = name <;> simp [setEntry, hn, hcons, ho]
      · rw [setEntry, if_neg hn, hcons, ih, hcons]
        by_cases ho : other = name
        · have : other ≠ n := fun he => hn (he ▸ ho)
          rw [if_neg this, if_pos ho, if_pos ho]
        · rw [if_neg ho, if_neg ho]
  exact h a.entries

end Attributes

end DocExport
