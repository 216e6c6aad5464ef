import Mathlib.Data.List.Basic

/-!
# Stretches of a list

A *stretch* names neighbouring places of a list by the first of them and the first place after
them.  The *spans* of a property are the stretches along which it holds without a gap and which
cannot be made longer on either side.

* **Main results.** `IsSpan.eq_of_mem` (two spans of one property that share a place are the
  same), `isSpan_between` (how a span is found) and `ListsSpans.append` (a list cut where no span
  goes on has the spans of its two parts).
-/

namespace DocExport

variable {α β : Type} {p : α → Bool} {xs ys : List α}

/-- Neighbouring places of a list, from `start` up to but without `stop`. -/
structure Stretch where
  start : Nat
  stop : Nat
  deriving DecidableEq, Repr

namespace Stretch

instance : Membership Nat Stretch := ⟨fun s i => s.start ≤ i ∧ i < s.stop⟩

theorem mem_def {s : Stretch} {i : Nat} : i ∈ s ↔ s.start ≤ i ∧ i < s.stop := Iff.rfl

instance (i : Nat) (s : Stretch) : Decidable (i ∈ s) :=
  inferInstanceAs (Decidable (s.start ≤ i ∧ i < s.stop))

/-- All places of a stretch can be looked at. -/
instance decidableBall (s : Stretch) (P : Nat → Prop) [DecidablePred P] :
    Decidable (∀ i ∈ s, P i) :=
  decidable_of_iff (∀ i < s.stop, s.start ≤ i → P i)
    ⟨fun h i hi => h i hi.2 hi.1, fun h i hi hstart => h i ⟨hstart, hi⟩⟩

/-- No place belongs to both stretches. -/
def Apart (s t : Stretch) : Prop := ∀ i ∈ s, i ∉ t

instance (s t : Stretch) : Decidable (s.Apart t) := decidableBall s (· ∉ t)

/-- Every place of the first stretch belongs to the second, which has more. -/
def Within (s t : Stretch) : Prop := (∀ i ∈ s, i ∈ t) ∧ ∃ i ∈ t, i ∉ s

instance (s t : Stretch) : Decidable (s.Within t) :=
  decidable_of_iff ((∀ i ∈ s, i ∈ t) ∧ ¬∀ i ∈ t, i ∈ s) (by simp [Within])

/-- The stretch as many places further on. -/
def shift (n : Nat) (s : Stretch) : Stretch := ⟨n + s.start, n + s.stop⟩

theorem start_shift (n : Nat) (s : Stretch) : (shift n s).start = n + s.start := rfl

theorem mem_shift {n i : Nat} {s : Stretch} :
    i ∈ shift n s ↔ n + s.start ≤ i ∧ i < n + s.stop := Iff.rfl

theorem shift_shift (m n : Nat) (s : Stretch) : shift m (shift n s) = shift (m + n) s := by
  simp only [shift, Nat.add_assoc]

/-- The items of a list at the places of a stretch. -/
def items (s : Stretch) (xs : List α) : List α := (xs.drop s.start).take (s.stop - s.start)

theorem items_between (pre mid post : List α) :
    items ⟨pre.length, pre.length + mid.length⟩ (pre ++ (mid ++ post)) = mid := by
  simp [items]

theorem mem_items {s : Stretch} {i : Nat} {x : α} (hi : i ∈ s) (hx : xs[i]? = some x) :
    x ∈ s.items xs := by
  rw [mem_def] at hi
  refine List.mem_of_getElem? (i := i - s.start) ?_
  rw [items, List.getElem?_take_of_lt (by omega), List.getElem?_drop, Nat.add_sub_cancel' hi.1, hx]

end Stretch

/-! ## Spans -/

/-- Whether a list has an item with a property at a place. -/
def holdsAt (p : α → Bool) (xs : List α) (i : Nat) : Bool := xs[i]?.any p

/-- A stretch along which a property holds, as long as it can be. -/
structure IsSpan (p : α → Bool) (xs : List α) (s : Stretch) : Prop where
  nonempty : s.start < s.stop
  holds : ∀ i ∈ s, holdsAt p xs i = true
  /-- It cannot begin any earlier. -/
  left : ∀ i, i + 1 = s.start → holdsAt p xs i = false
  /-- It cannot go on any longer. -/
  right : holdsAt p xs s.stop = false

instance (s : Stretch) : Decidable (IsSpan p xs s) :=
  decidable_of_iff (s.start < s.stop ∧ (∀ i ∈ s, holdsAt p xs i = true) ∧
      (∀ i < s.start, i + 1 = s.start → holdsAt p xs i = false) ∧ holdsAt p xs s.stop = false)
    ⟨fun ⟨hne, hholds, hleft, hright⟩ => ⟨hne, hholds, fun i hi => hleft i (by omega) hi, hright⟩,
      fun h => ⟨h.nonempty, h.holds, fun i _ hi => h.left i hi, h.right⟩⟩

/-- Two spans of one property that share a place are the same. -/
theorem IsSpan.eq_of_mem {s t : Stretch} (hs : IsSpan p xs s) (ht : IsSpan p xs t) {i : Nat}
    (his : i ∈ s) (hit : i ∈ t) : s = t := by
  -- by symmetry neither span can begin or end inside the other
  have hbound : ∀ {a b : Stretch}, IsSpan p xs a → IsSpan p xs b → i ∈ a → i ∈ b →
      b.start ≤ a.start ∧ a.stop ≤ b.stop := by
    intro a b ha hb hia hib
    rw [Stretch.mem_def] at hia hib
    constructor
    · by_contra hlt
      have hout := hb.left (b.start - 1) (by omega)
      have hin := ha.holds (b.start - 1) ⟨by omega, by omega⟩
      rw [hout] at hin
      exact Bool.false_ne_true hin
    · by_contra hlt
      have hin := ha.holds b.stop ⟨by omega, by omega⟩
      rw [hb.right] at hin
      exact Bool.false_ne_true hin
  obtain ⟨h₁, h₂⟩ := hbound hs ht his hit
  obtain ⟨h₃, h₄⟩ := hbound ht hs hit his
  cases s
  cases t
  simp only [Stretch.mk.injEq]
  exact ⟨Nat.le_antisymm h₃ h₁, Nat.le_antisymm h₂ h₄⟩

theorem IsSpan.succ_mem {s : Stretch} (hs : IsSpan p xs s) {i : Nat} (hi : i ∈ s)
    (hp : holdsAt p xs (i + 1) = true) : i + 1 ∈ s := by
  rw [Stretch.mem_def] at hi ⊢
  refine ⟨by omega, Nat.lt_of_le_of_ne hi.2 fun hstop => ?_⟩
  have hright := hs.right
  rw [← hstop, hp] at hright
  exact Bool.false_ne_true hright.symm

/-- A span comes from the place before if the property does. -/
theorem IsSpan.mem_of_succ_mem {s : Stretch} (hs : IsSpan p xs s) {i : Nat} (hi : i + 1 ∈ s)
    (hp : holdsAt p xs i = true) : i ∈ s := by
  rw [Stretch.mem_def] at hi ⊢
  refine ⟨?_, by omega⟩
  by_contra hstart
  have hleft := hs.left i (by omega)
  rw [hp] at hleft
  exact Bool.false_ne_true hleft.symm

theorem IsSpan.stop_le_length {s : Stretch} (hs : IsSpan p xs s) : s.stop ≤ xs.length := by
  have hlast := hs.holds (s.stop - 1) ⟨by have := hs.nonempty; omega, by have := hs.nonempty; omega⟩
  by_contra hlong
  rw [holdsAt, List.getElem?_eq_none (by omega)] at hlast
  exact Bool.false_ne_true hlast

/-- What is to be said of all spans can be decided if it can be decided of each of them. -/
instance decidableForallIsSpan (P : Stretch → Prop) [DecidablePred P] :
    Decidable (∀ s, IsSpan p xs s → P s) :=
  decidable_of_iff (∀ i < xs.length, ∀ j < xs.length + 1, IsSpan p xs ⟨i, j⟩ → P ⟨i, j⟩) <| by
    constructor
    · intro h s hs
      have hlen := hs.stop_le_length
      exact h s.start (Nat.lt_of_lt_of_le hs.nonempty hlen) s.stop (Nat.lt_succ_of_le hlen) hs
    · intro h i _ j _ hs
      exact h _ hs

theorem holdsAt_of_length_le {i : Nat} (h : xs.length ≤ i) : holdsAt p xs i = false := by
  rw [holdsAt, List.getElem?_eq_none h, Option.any_none]

theorem holdsAt_append_left (ys : List α) {i : Nat} (h : i < xs.length) :
    holdsAt p (xs ++ ys) i = holdsAt p xs i := by
  rw [holdsAt, holdsAt, List.getElem?_append_left h]

theorem holdsAt_append_right (xs ys : List α) (i : Nat) :
    holdsAt p (xs ++ ys) (xs.length + i) = holdsAt p ys i := by
  rw [holdsAt, holdsAt, List.getElem?_append_right (Nat.le_add_right _ _), Nat.add_sub_cancel_left]

theorem holdsAt_of_forall (h : ∀ x ∈ xs, p x = true) {i : Nat} (hi : i < xs.length) :
    holdsAt p xs i = true := by
  rw [holdsAt, List.getElem?_eq_getElem hi]
  exact h _ (List.getElem_mem hi)

/-- A middle part with a property, between an item without it and an item without it, is a
span. -/
theorem isSpan_between {pre mid post : List α} (hmid : mid ≠ []) (hp : ∀ x ∈ mid, p x = true)
    (hleft : ∀ x ∈ pre.getLast?, p x = false) (hright : ∀ x ∈ post.head?, p x = false) :
    IsSpan p (pre ++ (mid ++ post)) ⟨pre.length, pre.length + mid.length⟩ where
  nonempty := by
    have := List.length_pos_of_ne_nil hmid
    simp only
    omega
  holds := by
    intro i hi
    rw [Stretch.mem_def] at hi
    obtain ⟨j, rfl⟩ := Nat.exists_eq_add_of_le hi.1
    have hj : j < mid.length := by
      simp only at hi
      omega
    rw [holdsAt_append_right, holdsAt_append_left _ hj]
    exact holdsAt_of_forall hp hj
  left := by
    intro i hi
    simp only at hi
    rw [holdsAt_append_left _ (by omega), holdsAt]
    rw [show i = pre.length - 1 by omega, ← List.getLast?_eq_getElem?]
    cases hpre : pre.getLast? with
    | none => rfl
    | some x => exact hleft x hpre
  right := by
    show holdsAt p (pre ++ (mid ++ post)) (pre.length + mid.length) = false
    rw [holdsAt_append_right, ← Nat.add_zero mid.length, holdsAt_append_right, holdsAt,
      ← List.head?_eq_getElem?]
    cases hpost : post.head? with
    | none => rfl
    | some x => exact hright x hpost

/-! ## Lists cut where no span goes on -/

/-- No span of a property goes on from the end of one list into another. -/
def Cut (p : α → Bool) (xs ys : List α) : Prop :=
  ∀ x ∈ xs.getLast?, ∀ y ∈ ys.head?, p x = true → p y = false

/-- If a property holds at the end of the first list, it does not at the beginning of the
second. -/
theorem Cut.holdsAt_zero (hcut : Cut p xs ys) {i : Nat} (hi : i + 1 = xs.length)
    (hx : holdsAt p xs i = true) : holdsAt p ys 0 = false := by
  rw [holdsAt, show i = xs.length - 1 by omega, ← List.getLast?_eq_getElem?] at hx
  rw [holdsAt, ← List.head?_eq_getElem?]
  cases hlast : xs.getLast? with
  | none => simp [hlast] at hx
  | some x =>
    cases hhead : ys.head? with
    | none => rfl
    | some y => exact hcut x hlast y hhead (by simpa [hlast] using hx)

/-- A span of the first list is one of both. -/
theorem IsSpan.append_left {s : Stretch} (hcut : Cut p xs ys) (h : IsSpan p xs s) :
    IsSpan p (xs ++ ys) s := by
  have hlen := h.stop_le_length
  have hne := h.nonempty
  refine ⟨hne, fun i hi => ?_, fun i hi => ?_, ?_⟩
  · rw [holdsAt_append_left _ (Nat.lt_of_lt_of_le hi.2 hlen)]
    exact h.holds i hi
  · rw [holdsAt_append_left _ (by omega)]
    exact h.left i hi
  · rcases Nat.lt_or_eq_of_le hlen with hlt | hend
    · rw [holdsAt_append_left _ hlt]
      exact h.right
    · rw [hend, ← Nat.add_zero xs.length, holdsAt_append_right]
      exact hcut.holdsAt_zero (i := s.stop - 1) (by omega) (h.holds _ ⟨by omega, by omega⟩)

/-- A span of both lists that ends in the first is one of the first. -/
theorem IsSpan.of_append_left {s : Stretch} (h : IsSpan p (xs ++ ys) s)
    (hstop : s.stop ≤ xs.length) : IsSpan p xs s := by
  have hne := h.nonempty
  refine ⟨hne, fun i hi => ?_, fun i hi => ?_, ?_⟩
  · rw [← holdsAt_append_left ys (Nat.lt_of_lt_of_le hi.2 hstop)]
    exact h.holds i hi
  · rw [← holdsAt_append_left ys (by omega)]
    exact h.left i hi
  · rcases Nat.lt_or_eq_of_le hstop with hlt | hend
    · rw [← holdsAt_append_left ys hlt]
      exact h.right
    · exact holdsAt_of_length_le (Nat.le_of_eq hend.symm)

/-- A span of the second list is one of both, further on. -/
theorem IsSpan.append_right {s : Stretch} (hcut : Cut p xs ys) (h : IsSpan p ys s) :
    IsSpan p (xs ++ ys) (s.shift xs.length) := by
  have hne := h.nonempty
  refine ⟨Nat.add_lt_add_left hne _, fun i hi => ?_, fun i hi => ?_, ?_⟩
  · rw [Stretch.mem_shift] at hi
    obtain ⟨j, rfl⟩ := Nat.exists_eq_add_of_le (Nat.le_trans (Nat.le_add_right _ _) hi.1)
    rw [holdsAt_append_right]
    exact h.holds j ⟨by omega, by omega⟩
  · rw [Stretch.start_shift] at hi
    rcases Nat.lt_or_ge i xs.length with hlt | hge
    · rw [holdsAt_append_left _ hlt]
      by_contra hx
      have hy := hcut.holdsAt_zero (i := i) (by omega) (by simpa using hx)
      rw [h.holds 0 ⟨by omega, by omega⟩] at hy
      exact Bool.false_ne_true hy.symm
    · obtain ⟨j, rfl⟩ := Nat.exists_eq_add_of_le hge
      rw [holdsAt_append_right]
      exact h.left j (by omega)
  · rw [Stretch.shift, holdsAt_append_right]
    exact h.right

/-- A span of both lists that begins in the second is one of the second. -/
theorem IsSpan.of_append_right {s : Stretch} (h : IsSpan p (xs ++ ys) (s.shift xs.length)) :
    IsSpan p ys s := by
  refine ⟨Nat.lt_of_add_lt_add_left h.nonempty, fun i hi => ?_, fun i hi => ?_, ?_⟩
  · rw [← holdsAt_append_right xs]
    exact h.holds _ ⟨Nat.add_le_add_left hi.1 _, Nat.add_lt_add_left hi.2 _⟩
  · rw [← holdsAt_append_right xs]
    exact h.left _ (by rw [Nat.add_assoc, hi]; rfl)
  · rw [← holdsAt_append_right xs]
    exact h.right

/-- A span of both lists lies in one of them. -/
theorem IsSpan.stop_le_or_le_start {s : Stretch} (hcut : Cut p xs ys)
    (h : IsSpan p (xs ++ ys) s) : s.stop ≤ xs.length ∨ xs.length ≤ s.start := by
  by_contra hacross
  rw [not_or, Nat.not_le, Nat.not_le] at hacross
  have hx := h.holds (xs.length - 1) ⟨by omega, by omega⟩
  have hy := h.holds (xs.length + 0) ⟨by omega, by omega⟩
  rw [holdsAt_append_left _ (by omega)] at hx
  rw [holdsAt_append_right, hcut.holdsAt_zero (by omega) hx] at hy
  exact Bool.false_ne_true hy

/-- Where the spans of two lists after one another lie. -/
theorem isSpan_append_iff {s : Stretch} (hcut : Cut p xs ys) :
    IsSpan p (xs ++ ys) s ↔ IsSpan p xs s ∨ ∃ t, IsSpan p ys t ∧ s = t.shift xs.length := by
  constructor
  · intro h
    rcases h.stop_le_or_le_start hcut with hstop | hstart
    · exact Or.inl (h.of_append_left hstop)
    · have hne := h.nonempty
      obtain ⟨t, rfl⟩ : ∃ t : Stretch, s = t.shift xs.length := by
        refine ⟨⟨s.start - xs.length, s.stop - xs.length⟩, ?_⟩
        rw [Stretch.shift, Nat.add_sub_cancel' hstart, Nat.add_sub_cancel' (by omega)]
      exact Or.inr ⟨t, h.of_append_right, rfl⟩
  · rintro (h | ⟨t, h, rfl⟩)
    · exact h.append_left hcut
    · exact h.append_right hcut

/-! ## All spans -/

/-- The spans of a property, all of them, from left to right. -/
structure ListsSpans (p : α → Bool) (xs : List α) (ss : List Stretch) : Prop where
  sorted : ss.Pairwise fun s t => s.stop ≤ t.start
  mem_iff : ∀ s, s ∈ ss ↔ IsSpan p xs s

/-- A property of no item has no spans. -/
theorem listsSpans_of_forall_not (h : ∀ x ∈ xs, p x = false) : ListsSpans p xs [] where
  sorted := List.Pairwise.nil
  mem_iff := by
    intro s
    refine iff_of_false List.not_mem_nil fun hs => ?_
    have hlen := hs.stop_le_length
    have hfirst := hs.holds s.start ⟨Nat.le_refl _, hs.nonempty⟩
    have hin : s.start < xs.length := Nat.lt_of_lt_of_le hs.nonempty hlen
    rw [holdsAt, List.getElem?_eq_getElem hin, Option.any_some,
      h _ (List.getElem_mem hin)] at hfirst
    exact Bool.false_ne_true hfirst

/-- A property of all items has a single span. -/
theorem listsSpans_of_forall (hne : xs ≠ []) (h : ∀ x ∈ xs, p x = true) :
    ListsSpans p xs [⟨0, xs.length⟩] where
  sorted := List.pairwise_singleton _ _
  mem_iff := by
    have hall : IsSpan p xs ⟨0, xs.length⟩ := by
      have hwhole : IsSpan p ([] ++ (xs ++ [])) ⟨0, 0 + xs.length⟩ :=
        isSpan_between hne h (by simp) (by simp)
      simpa using hwhole
    intro s
    rw [List.mem_singleton]
    constructor
    · rintro rfl
      exact hall
    · intro hs
      have hlen := hs.stop_le_length
      exact hs.eq_of_mem hall ⟨Nat.le_refl _, hs.nonempty⟩
        ⟨Nat.zero_le _, Nat.lt_of_lt_of_le hs.nonempty hlen⟩

theorem ListsSpans.eq_nil {ss : List Stretch} (hs : ListsSpans p xs ss)
    (h : ∀ x ∈ xs, p x = false) : ss = [] := by
  refine List.eq_nil_iff_forall_not_mem.2 fun s hmem => ?_
  have hnone := (listsSpans_of_forall_not h).mem_iff s
  exact List.not_mem_nil (hnone.2 ((hs.mem_iff s).1 hmem))

/-- Properties that hold at the same places have the same spans. -/
theorem ListsSpans.congr {q : β → Bool} {zs : List β} {ss : List Stretch}
    (h : ∀ i, holdsAt p xs i = holdsAt q zs i) (hs : ListsSpans p xs ss) :
    ListsSpans q zs ss where
  sorted := hs.sorted
  mem_iff := by
    intro s
    rw [hs.mem_iff]
    constructor
    · rintro ⟨hne, hholds, hleft, hright⟩
      simp only [h] at hholds hleft hright
      exact ⟨hne, hholds, hleft, hright⟩
    · rintro ⟨hne, hholds, hleft, hright⟩
      simp only [← h] at hholds hleft hright
      exact ⟨hne, hholds, hleft, hright⟩

theorem holdsAt_map {q : β → Bool} {zs : List β} (f : β → α) (h : ∀ z ∈ zs, p (f z) = q z)
    (i : Nat) : holdsAt p (zs.map f) i = holdsAt q zs i := by
  rw [holdsAt, holdsAt, List.getElem?_map]
  cases hz : zs[i]? with
  | none => rfl
  | some z => exact h z (List.mem_of_getElem? hz)

/-- The spans of two lists after one another, when none goes from the first list on into the
second. -/
theorem ListsSpans.append {ss ts : List Stretch} (hx : ListsSpans p xs ss)
    (hy : ListsSpans p ys ts)
    (hcut : Cut p xs ys) :
    ListsSpans p (xs ++ ys) (ss ++ ts.map (Stretch.shift xs.length)) where
  sorted := by
    refine List.pairwise_append.2 ⟨hx.sorted, ?_, ?_⟩
    · refine List.Pairwise.map _ (fun s t hst => ?_) hy.sorted
      simp only [Stretch.shift]
      omega
    · intro s hs t ht
      obtain ⟨t, -, rfl⟩ := List.mem_map.1 ht
      have hlen := ((hx.mem_iff s).1 hs).stop_le_length
      simp only [Stretch.shift]
      omega
  mem_iff := by
    intro s
    rw [List.mem_append, List.mem_map, isSpan_append_iff hcut, hx.mem_iff]
    refine or_congr_right ⟨?_, ?_⟩
    · rintro ⟨t, ht, rfl⟩
      exact ⟨t, (hy.mem_iff t).1 ht, rfl⟩
    · rintro ⟨t, ht, rfl⟩
      exact ⟨t, (hy.mem_iff t).2 ht, rfl⟩

end DocExport
