import DocExport.Markdown.Inline
import DocExport.Proofs.Groups

/-!
# Reading inline content

A reader goes through inline content from left to right and sees one *glyph* after another: a
character of text or of code, a whole formula or a whole image.  Each glyph stands inside some
*wrappers*.  A *reading* lists the glyphs with the wrappers around each of them, and it is all
that coalescing has to respect: where neighbours are joined, pieces of text and of markup become
fewer, but what is read stays the same.

* **Main results.** `readingsAll_coalesce` (coalescing keeps the reading) and
  `glyphsAll_coalesceWithin` (and with it the glyphs).
-/

namespace DocExport

/-- The smallest thing that can be read. -/
inductive Glyph where
  /-- A character of plain text. -/
  | text (c : Char)
  /-- A character of code. -/
  | code (c : Char)
  /-- A whole formula. -/
  | math (formula : String)
  /-- A whole image. -/
  | image (target : Target) (alt : String) (title : Option String) (media : Option Media)

/-- What can stand around a glyph. -/
inductive Wrapper where
  | emphasis
  | strong
  | delete
  /-- A link with what its target reads. -/
  | link (url : Option String)
  deriving DecidableEq, Repr

namespace Inline

variable {slots : Slots} {around : List Wrapper}

/-! ## Glyphs and readings -/

mutual

/-- The glyphs of an inline. -/
def glyphs : Inline → List Glyph
  | .text value => value.toList.map .text
  | .code value => value.toList.map .code
  | .math value => [.math value]
  | .emphasis xs | .strong xs | .delete xs => glyphsAll xs
  | .link _ _ _ xs => glyphsAll xs
  | .image target alt title media => [.image target alt title media]

/-- The glyphs of a list of inlines. -/
def glyphsAll : List Inline → List Glyph
  | [] => []
  | x :: xs => glyphs x ++ glyphsAll xs

end

mutual

/-- The glyphs of an inline with the wrappers around each, the innermost first; `around` is what
the inline itself stands in. -/
def readings (slots : Slots) (around : List Wrapper) : Inline → List (Glyph × List Wrapper)
  | .text value => value.toList.map fun c => (.text c, around)
  | .code value => value.toList.map fun c => (.code c, around)
  | .math value => [(.math value, around)]
  | .emphasis xs => readingsAll slots (.emphasis :: around) xs
  | .strong xs => readingsAll slots (.strong :: around) xs
  | .delete xs => readingsAll slots (.delete :: around) xs
  | .link target _ _ xs => readingsAll slots (.link (slots.read target) :: around) xs
  | .image target alt title media => [(.image target alt title media, around)]

/-- The glyphs of a list of inlines with the wrappers around each. -/
def readingsAll (slots : Slots) (around : List Wrapper) :
    List Inline → List (Glyph × List Wrapper)
  | [] => []
  | x :: xs => readings slots around x ++ readingsAll slots around xs

end

theorem readingsAll_append (xs ys : List Inline) :
    readingsAll slots around (xs ++ ys) =
      readingsAll slots around xs ++ readingsAll slots around ys := by
  induction xs with
  | nil => rfl
  | cons x xs ih => simp only [List.cons_append, readingsAll, ih, List.append_assoc]

theorem readingsAll_map {α : Type} (f : α → Inline) (as : List α) :
    readingsAll slots around (as.map f) = as.flatMap fun a => readings slots around (f a) := by
  induction as with
  | nil => rfl
  | cons a as ih => rw [List.map_cons, readingsAll, ih, List.flatMap_cons]

theorem readingsAll_flatMap {α : Type} (f : α → List Inline) (as : List α) :
    readingsAll slots around (as.flatMap f) =
      as.flatMap fun a => readingsAll slots around (f a) := by
  induction as with
  | nil => rfl
  | cons a as ih => rw [List.flatMap_cons, readingsAll_append, ih, List.flatMap_cons]

mutual

theorem map_fst_readings (slots : Slots) (around : List Wrapper) :
    ∀ x : Inline, (readings slots around x).map Prod.fst = glyphs x
  | .text _ | .code _ | .math _ | .image .. => by simp [readings, glyphs]
  | .emphasis xs | .strong xs | .delete xs => by
      rw [readings, glyphs, map_fst_readingsAll slots _ xs]
  | .link _ _ _ xs => by rw [readings, glyphs, map_fst_readingsAll slots _ xs]

theorem map_fst_readingsAll (slots : Slots) (around : List Wrapper) :
    ∀ xs : List Inline, (readingsAll slots around xs).map Prod.fst = glyphsAll xs
  | [] => rfl
  | x :: xs => by
      rw [readingsAll, glyphsAll, List.map_append, map_fst_readings slots around x,
        map_fst_readingsAll slots around xs]

end

/-! ## Joining neighbours -/

/-- A first inline with all the inlines after it joined onto it. -/
def joined (first : Inline) (rest : List Inline) : Inline :=
  rest.foldl (fun joined next => (join? joined next).getD joined) first

theorem join?_eq_some {a b : Inline} (h : belongTogether slots a b = true) :
    ∃ c, join? a b = some c ∧ c.joinKind? slots = b.joinKind? slots ∧
      ∀ around, readings slots around c = readings slots around a ++ readings slots around b := by
  cases a <;> cases b <;>
    simp_all [belongTogether, joinKind?, join?, readings, readingsAll_append]

theorem belongTogether_congr {a b : Inline} (h : a.joinKind? slots = b.joinKind? slots)
    (c : Inline) : belongTogether slots a c = belongTogether slots b c := by
  rw [belongTogether, belongTogether, h]

/-- What joining two inlines that belong together keeps, joining a whole group keeps: its items
are joined from the left, and what has been joined so far goes with the next item. -/
theorem joined_induction {motive : Inline → List Inline → Inline → Prop}
    (single : ∀ x, motive x [] x)
    (step : ∀ {a b c rest x}, belongTogether slots a b = true → join? a b = some c →
      motive c rest x → motive a (b :: rest) x)
    {first : Inline} {rest : List Inline}
    (h : (first :: rest).IsChain fun a b => belongTogether slots a b = true) :
    motive first rest (joined first rest) := by
  induction rest generalizing first with
  | nil => exact single first
  | cons next rest ih =>
    obtain ⟨hnext, hrest⟩ := List.isChain_cons_cons.1 h
    obtain ⟨both, hjoin, hkind, -⟩ := join?_eq_some hnext
    have hchain : (both :: rest).IsChain fun a b => belongTogether slots a b = true := by
      refine List.IsChain.imp_head ?_ hrest
      intro z hz
      rwa [belongTogether_congr hkind]
    have hstep : joined first (next :: rest) = joined both rest := by
      simp only [joined, List.foldl_cons, hjoin, Option.getD_some]
    rw [hstep]
    exact step hnext hjoin (ih hchain)

/-- Joined inlines are of the kind of the first of them. -/
theorem joinKind?_joined {first : Inline} {rest : List Inline}
    (h : (first :: rest).IsChain fun a b => belongTogether slots a b = true) :
    (joined first rest).joinKind? slots = first.joinKind? slots := by
  refine joined_induction (motive := fun first _ whole => whole.joinKind? slots =
    first.joinKind? slots) (fun _ => rfl) ?_ h
  intro a b c rest x hab hjoin hx
  obtain ⟨c', hjoin', hkind, -⟩ := join?_eq_some hab
  obtain rfl : c = c' := Option.some.inj (hjoin.symm.trans hjoin')
  simp only [belongTogether, Bool.and_eq_true, beq_iff_eq] at hab
  rw [hx, hkind, hab.2]

/-- Inlines each of which belongs together with the one before it read, joined, as they did one
after another. -/
theorem readings_joined {first : Inline} {rest : List Inline}
    (h : (first :: rest).IsChain fun a b => belongTogether slots a b = true) :
    readings slots around (joined first rest) = readingsAll slots around (first :: rest) := by
  refine joined_induction (motive := fun first rest whole => readings slots around whole =
    readingsAll slots around (first :: rest)) (fun _ => by simp [readingsAll]) ?_ h
  intro a b c rest x hab hjoin hx
  obtain ⟨c', hjoin', -, hreadings⟩ := join?_eq_some hab
  obtain rfl : c = c' := Option.some.inj (hjoin.symm.trans hjoin')
  rw [hx, readingsAll, readingsAll, readingsAll, hreadings, List.append_assoc]

/-! ## Coalescing -/

theorem readings_mapChildren {f : List Inline → List Inline}
    (hf : ∀ around xs, readingsAll slots around (f xs) = readingsAll slots around xs)
    (x : Inline) : readings slots around (x.mapChildren f) = readings slots around x := by
  cases x <;> simp only [mapChildren, readings, hf]

/-- What takes the place of a group of neighbours: all of them joined, coalesced inside. -/
def combineWithin (slots : Slots) (levels : Nat) (first : Inline) (rest : List Inline) : Inline :=
  (joined first rest).mapChildren (coalesceWithin slots levels)

theorem coalesceWithin_succ (slots : Slots) (levels : Nat) (xs : List Inline) :
    coalesceWithin slots (levels + 1) xs =
      (Adjacent.groups (belongTogether slots) xs).map
        (Adjacent.Group.collapse (combineWithin slots levels)) := rfl

/-- What takes the place of a group reads like the group, when coalescing keeps the reading one
level further down. -/
theorem readings_collapse {levels : Nat} {g : Adjacent.Group Inline}
    (hchain : g.toList.IsChain fun a b => belongTogether slots a b = true)
    (hinner : ∀ around xs, readingsAll slots around (coalesceWithin slots levels xs) =
      readingsAll slots around xs) :
    readings slots around (g.collapse (combineWithin slots levels)) =
      readingsAll slots around g.toList := by
  obtain ⟨first, rest⟩ := g
  cases rest with
  | nil => simp [Adjacent.Group.collapse, Adjacent.Group.toList, readingsAll]
  | cons next rest =>
    rw [Adjacent.Group.collapse, if_neg (by simp), combineWithin, readings_mapChildren hinner,
      readings_joined hchain]
    rfl

/-- Coalescing keeps the reading, whatever the depth it stops at. -/
theorem readingsAll_coalesceWithin (levels : Nat) (xs : List Inline) :
    readingsAll slots around (coalesceWithin slots levels xs) = readingsAll slots around xs := by
  induction levels generalizing around xs with
  | zero => rfl
  | succ levels ih =>
    calc readingsAll slots around (coalesceWithin slots (levels + 1) xs)
        = (Adjacent.groups (belongTogether slots) xs).flatMap fun g =>
            readings slots around (g.collapse (combineWithin slots levels)) := by
          rw [coalesceWithin_succ, readingsAll_map]
      _ = (Adjacent.groups (belongTogether slots) xs).flatMap fun g =>
            readingsAll slots around g.toList :=
          List.flatMap_congr fun g hg =>
            readings_collapse (Adjacent.isChain_of_mem_groups hg) fun _ _ => ih _
      _ = readingsAll slots around
            ((Adjacent.groups (belongTogether slots) xs).flatMap Adjacent.Group.toList) :=
          (readingsAll_flatMap _ _).symm
      _ = readingsAll slots around xs := by rw [Adjacent.flatMap_toList_groups]

theorem glyphs_collapse {levels : Nat} {g : Adjacent.Group Inline}
    (hchain : g.toList.IsChain fun a b => belongTogether slots a b = true) :
    (g.collapse (combineWithin slots levels)).glyphs = glyphsAll g.toList := by
  rw [← map_fst_readings slots [], readings_collapse hchain fun _ => readingsAll_coalesceWithin _,
    map_fst_readingsAll]

/-- Coalescing keeps the reading. -/
theorem readingsAll_coalesce (xs : List Inline) :
    readingsAll slots around (coalesce slots xs) = readingsAll slots around xs :=
  readingsAll_coalesceWithin _ xs

/-- Coalescing keeps the glyphs, whatever the depth it stops at. -/
theorem glyphsAll_coalesceWithin (levels : Nat) (xs : List Inline) :
    glyphsAll (coalesceWithin slots levels xs) = glyphsAll xs := by
  rw [← map_fst_readingsAll slots [], readingsAll_coalesceWithin, map_fst_readingsAll]

end Inline

end DocExport
