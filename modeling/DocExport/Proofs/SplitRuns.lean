import DocExport.Proofs.Strands

/-!
# Splitting a run

An editor cuts its text into runs as it pleases: a run may at any time become two runs with the
same style that spell the same text between them.  Phrasing does not show where the cuts are.
Spans count characters and not runs, so every run keeps the order of its marks, and the two
halves of a run are joined again at whatever depth they stand.

* **Main results.** `Inline.coalesceWithin_halves` (coalescing joins the two halves of an
  inline), `RichText.exists_halves` (what becomes of a run that is cut in two) and
  `RichText.inlines_split` (splitting a run leaves the phrasing as it is).
-/

namespace DocExport

-- sums start from the plain zero, whatever else is imported beside this module
attribute [local instance (2000)] Zero.ofOfNat0

namespace Inline

variable {slots : Slots} {levels : Nat} {x y z : Inline}

/-! ## Halves of an inline -/

/-- An inline with a single leaf, and its two halves: each has a part of the leaf under the same
marks. -/
inductive Halves : Inline → Inline → Inline → Prop where
  | text (a b : String) : Halves (.text (a ++ b)) (.text a) (.text b)
  | code (a b : String) : Halves (.code (a ++ b)) (.code a) (.code b)
  | wrap (r : Run) (mark : Mark) {x y z : Inline} (inner : Halves x y z) :
      Halves (r.wrap x mark) (r.wrap y mark) (r.wrap z mark)

theorem Halves.joinKind? (h : Halves x y z) (slots : Slots) :
    (x.joinKind? slots).isSome = true ∧ y.joinKind? slots = x.joinKind? slots ∧
      z.joinKind? slots = x.joinKind? slots := by
  cases h with
  | text | code => exact ⟨rfl, rfl, rfl⟩
  | wrap r mark => cases mark <;> exact ⟨rfl, rfl, rfl⟩

theorem Halves.depth (h : Halves x y z) : y.depth = x.depth ∧ z.depth = x.depth := by
  induction h with
  | text | code => simp [Inline.depth]
  | wrap r mark _ ih =>
    cases mark <;> simp [Run.wrap, Inline.depth, depthAll, ih.1, ih.2]

/-! ## Joining halves -/

/-- What is joined so far, with one more inline joined onto it. -/
def joinNext (sofar next : Inline) : Inline := (join? sofar next).getD sofar

/-- An inline with other children. -/
def withChildren (x : Inline) (children : List Inline) : Inline := x.mapChildren fun _ => children

/-- Two inlines differ in nothing but their children, and these are coalesced alike, whatever
comes after them. -/
def SameInside (slots : Slots) (levels : Nat) (x y : Inline) : Prop :=
  ∃ shell xs ys, x = withChildren shell xs ∧ y = withChildren shell ys ∧
    ∀ more, coalesceWithin slots levels (xs ++ more) = coalesceWithin slots levels (ys ++ more)

/-- An inline is the same inside as itself. -/
theorem SameInside.refl (slots : Slots) (levels : Nat) (x : Inline) :
    SameInside slots levels x x := by
  have hself : ∃ xs, x = withChildren x xs := by
    cases x with
    | text | code | math | image => exact ⟨[], rfl⟩
    | emphasis xs | strong xs | delete xs => exact ⟨xs, rfl⟩
    | link _ _ _ xs => exact ⟨xs, rfl⟩
  obtain ⟨xs, hxs⟩ := hself
  exact ⟨x, xs, xs, hxs, hxs, fun _ => rfl⟩

theorem SameInside.of_eq (h : x = y) : SameInside slots levels x y :=
  h ▸ SameInside.refl slots levels x

/-- Inlines that are the same inside stay so when something is joined onto both. -/
theorem SameInside.joinNext (h : SameInside slots levels x y) (next : Inline) :
    SameInside slots levels (x.joinNext next) (y.joinNext next) := by
  obtain ⟨shell, xs, ys, rfl, rfl, hmore⟩ := h
  have hkeep : SameInside slots levels (withChildren shell xs) (withChildren shell ys) :=
    ⟨shell, xs, ys, rfl, rfl, hmore⟩
  have hgrow : ∀ new : List Inline,
      SameInside slots levels (withChildren shell (xs ++ new))
        (withChildren shell (ys ++ new)) := by
    intro new
    refine ⟨shell, xs ++ new, ys ++ new, rfl, rfl, fun more => ?_⟩
    rw [List.append_assoc, List.append_assoc, hmore]
  cases shell with
  | text | code | math | image => exact SameInside.refl slots levels _
  | emphasis | strong | delete | link =>
    cases next <;> first | exact hgrow _ | exact hkeep

theorem SameInside.mapChildren_eq (h : SameInside slots levels x y) :
    x.mapChildren (coalesceWithin slots levels) = y.mapChildren (coalesceWithin slots levels) := by
  obtain ⟨shell, xs, ys, rfl, rfl, hmore⟩ := h
  have heq : coalesceWithin slots levels xs = coalesceWithin slots levels ys := by
    simpa using hmore []
  cases shell <;> simp only [withChildren, mapChildren, heq]

theorem SameInside.foldl_joinNext (h : SameInside slots levels x y) (rest : List Inline) :
    SameInside slots levels (rest.foldl Inline.joinNext x) (rest.foldl Inline.joinNext y) := by
  induction rest generalizing x y with
  | nil => exact h
  | cons next rest ih => exact ih (h.joinNext next)

/-- Onto an inline either nothing under a mark is joined, or everything, behind the children it
has. -/
theorem joinNext_wrap (sofar : Inline) (r : Run) (mark : Mark) :
    (∀ x, sofar.joinNext (r.wrap x mark) = sofar) ∨
      ∃ children, sofar = withChildren sofar children ∧ ∀ more x,
        (withChildren sofar more).joinNext (r.wrap x mark) = withChildren sofar (more ++ [x]) := by
  cases mark with
  | emphasis =>
    cases sofar with
    | emphasis xs => exact Or.inr ⟨xs, rfl, fun _ _ => rfl⟩
    | _ => exact Or.inl fun _ => rfl
  | strong =>
    cases sofar with
    | strong xs => exact Or.inr ⟨xs, rfl, fun _ _ => rfl⟩
    | _ => exact Or.inl fun _ => rfl
  | delete =>
    cases sofar with
    | delete xs => exact Or.inr ⟨xs, rfl, fun _ _ => rfl⟩
    | _ => exact Or.inl fun _ => rfl
  | link =>
    cases sofar with
    | link _ _ _ xs => exact Or.inr ⟨xs, rfl, fun _ _ => rfl⟩
    | _ => exact Or.inl fun _ => rfl

/-- Joining the two halves onto an inline is joining the whole onto it, when halves are joined one
level further down. -/
theorem Halves.sameInside_joinNext (h : Halves x y z) (hdepth : x.depth ≤ levels + 1)
    (hinner : ∀ {x y z}, Halves x y z → x.depth ≤ levels → ∀ xs ys,
      coalesceWithin slots levels (xs ++ y :: z :: ys) =
        coalesceWithin slots levels (xs ++ x :: ys)) :
    SameInside slots levels (y.joinNext z) x ∧
      ∀ sofar : Inline,
        SameInside slots levels ((sofar.joinNext y).joinNext z) (sofar.joinNext x) := by
  cases h with
  | text a b =>
    refine ⟨SameInside.refl _ _ _, fun sofar => SameInside.of_eq ?_⟩
    cases sofar <;> simp [Inline.joinNext, join?, String.append_assoc]
  | code a b =>
    refine ⟨SameInside.refl _ _ _, fun sofar => SameInside.of_eq ?_⟩
    cases sofar <;> simp [Inline.joinNext, join?, String.append_assoc]
  | @wrap r mark x y z inner =>
    have hx : x.depth ≤ levels := by
      cases mark <;> simp [Run.wrap, Inline.depth, depthAll] at hdepth <;> exact hdepth
    have hchildren : ∀ (shell : Inline) (xs : List Inline),
        SameInside slots levels (withChildren shell (xs ++ [y] ++ [z]))
          (withChildren shell (xs ++ [x])) := by
      intro shell xs
      refine ⟨shell, _, _, rfl, rfl, fun more => ?_⟩
      simp only [List.append_assoc, List.singleton_append]
      exact hinner inner hx xs more
    refine ⟨?_, fun sofar => ?_⟩
    · have halves := hchildren (r.wrapAll [] mark) []
      cases mark <;> exact halves
    · rcases joinNext_wrap sofar r mark with hnone | ⟨children, hself, hjoin⟩
      · rw [hnone, hnone, hnone]
        exact SameInside.refl _ _ _
      · rw [hself, hjoin, hjoin, hjoin]
        exact hchildren sofar children

/-- An inline with a single leaf has nothing in it that could be joined. -/
theorem Halves.mapChildren_eq (h : Halves x y z) :
    x.mapChildren (coalesceWithin slots levels) = x := by
  cases h with
  | text | code => rfl
  | @wrap r mark x =>
    have hsingle : coalesceWithin slots levels [x] = [x] := by
      cases levels <;> rfl
    rw [Run.wrap_eq_wrapAll, Run.mapChildren_wrapAll, hsingle]

/-- What takes the place of a group is the same whether an inline in it is whole or in two halves,
when halves are joined one level further down. -/
theorem Halves.collapse_eq (h : Halves x y z) (hdepth : x.depth ≤ levels + 1)
    (hinner : ∀ {x y z}, Halves x y z → x.depth ≤ levels → ∀ xs ys,
      coalesceWithin slots levels (xs ++ y :: z :: ys) =
        coalesceWithin slots levels (xs ++ x :: ys))
    {g g' : Adjacent.Group Inline} {before after : List Inline}
    (hg : g.toList = before ++ x :: after) (hg' : g'.toList = before ++ y :: z :: after) :
    g'.collapse (combineWithin slots levels) = g.collapse (combineWithin slots levels) := by
  obtain ⟨hfirst, hlater⟩ := h.sameInside_joinNext hdepth hinner
  obtain ⟨head, tail⟩ := g
  obtain ⟨head', tail'⟩ := g'
  simp only [Adjacent.Group.toList] at hg hg'
  cases before with
  | nil =>
    simp only [List.nil_append, List.cons.injEq] at hg hg'
    obtain ⟨⟨rfl, rfl⟩, rfl, rfl⟩ := And.intro hg hg'
    have hwhole : Adjacent.Group.collapse (combineWithin slots levels) ⟨head, tail⟩ =
        combineWithin slots levels head tail := by
      cases tail with
      | nil => exact h.mapChildren_eq.symm
      | cons next tail => rfl
    rw [hwhole]
    exact (hfirst.foldl_joinNext tail).mapChildren_eq
  | cons a before =>
    simp only [List.cons_append, List.cons.injEq] at hg hg'
    obtain ⟨⟨rfl, rfl⟩, rfl, rfl⟩ := And.intro hg hg'
    have hcollapse : ∀ next rest, Adjacent.Group.collapse (combineWithin slots levels)
        ⟨head', before ++ next :: rest⟩ =
          ((next :: rest).foldl Inline.joinNext (before.foldl Inline.joinNext head')).mapChildren
            (coalesceWithin slots levels) := by
      intro next rest
      rw [Adjacent.Group.collapse, if_neg (by simp), ← List.foldl_append]
      rfl
    rw [hcollapse, hcollapse]
    exact ((hlater (before.foldl Inline.joinNext head')).foldl_joinNext after).mapChildren_eq

/-- Coalescing joins the two halves of an inline, whatever stands before and after them. -/
theorem coalesceWithin_halves (h : Halves x y z) (hdepth : x.depth ≤ levels)
    (xs ys : List Inline) :
    coalesceWithin slots levels (xs ++ y :: z :: ys) =
      coalesceWithin slots levels (xs ++ x :: ys) := by
  induction levels generalizing x y z xs ys with
  | zero =>
    have hpos : 0 < x.depth := by
      cases x <;> simp [Inline.depth]
    omega
  | succ levels ih =>
    obtain ⟨hsome, hy, hz⟩ := h.joinKind? slots
    have hyz : belongTogether slots y z = true := by
      rw [belongTogether, hy, hz, hsome, Bool.true_and, beq_self_eq_true]
    obtain ⟨gs, g, g', hs, before, after, hgroups, hgroups', hg, hg'⟩ :=
      Adjacent.groups_split hyz (fun a => by rw [belongTogether, hy, belongTogether])
        (belongTogether_congr hz) xs ys
    rw [coalesceWithin_succ, coalesceWithin_succ, hgroups, hgroups', List.map_append,
      List.map_append, List.map_cons, List.map_cons,
      h.collapse_eq hdepth (fun h hdepth xs ys => ih h hdepth xs ys) hg hg']

/-- Two halves in the place of an inline leave the depth of a list as it is. -/
theorem depthAll_halves (h : Halves x y z) (xs ys : List Inline) :
    x.depth ≤ depthAll (xs ++ x :: ys) ∧
      depthAll (xs ++ y :: z :: ys) = depthAll (xs ++ x :: ys) := by
  obtain ⟨hy, hz⟩ := h.depth
  induction xs with
  | nil =>
    simp only [List.nil_append, depthAll, hy, hz]
    omega
  | cons a xs ih =>
    simp only [List.cons_append, depthAll]
    omega

theorem coalesce_halves (h : Halves x y z) (xs ys : List Inline) :
    coalesce slots (xs ++ y :: z :: ys) = coalesce slots (xs ++ x :: ys) := by
  obtain ⟨hdepth, hsame⟩ := depthAll_halves h xs ys
  rw [coalesce, coalesce, hsame, coalesceWithin_halves h hdepth]

end Inline

/-! ## Attributes that matter -/

namespace Run

/-- The names of the attributes that phrasing knows. -/
def knownNames : List String :=
  ["fixEnter", "italic", "bold", "strikethrough", "link", "inlineCode", "equation"]

/-- The attributes of a run that phrasing knows, with their values, in the order of their
declaration. -/
def known (r : Run) : List (String × String) :=
  r.attributes.entries.filter fun e => knownNames.contains e.1

variable {r s a b : Run}

/-- Runs that agree on what is known read the same under a known name. -/
theorem get?_eq_of_known (h : s.known = r.known) {name : String} (hname : name ∈ knownNames) :
    s.attributes.get? name = r.attributes.get? name := by
  have hlookup : ∀ es : List (String × String),
      (es.filter fun e => knownNames.contains e.1).lookup name = es.lookup name := by
    intro es
    induction es with
    | nil => rfl
    | cons e es ih =>
      by_cases he : name = e.1
      · have hknown : knownNames.contains e.1 = true := List.contains_iff_mem.2 (he ▸ hname)
        rw [List.filter_cons, if_pos hknown, List.lookup_cons, List.lookup_cons, ih]
      · have hne : (name == e.1) = false := beq_eq_false_iff_ne.2 he
        rw [List.lookup_cons, hne, List.filter_cons]
        split
        · rw [List.lookup_cons, hne, ih]
        · exact ih
  rw [Attributes.get?, Attributes.get?, ← hlookup, ← hlookup r.attributes.entries]
  exact congrArg (List.lookup name) h

theorem contains_eq_of_known (h : s.known = r.known) {name : String} (hname : name ∈ knownNames) :
    s.attributes.contains name = r.attributes.contains name := by
  rw [← Attributes.isSome_get?, ← Attributes.isSome_get?, get?_eq_of_known h hname]

/-- Runs that agree on what is known have the same marks. -/
theorem marks_eq_of_known (h : s.known = r.known) : s.marks = r.marks := by
  have hmarks : ∀ q : Run, q.marks = q.known.filterMap fun e => Mark.ofName? e.1 := by
    intro q
    rw [marks, Attributes.names, known, List.filterMap_map, List.filterMap_filter]
    refine List.filterMap_congr fun e _ => ?_
    cases hmark : Mark.ofName? e.1 with
    | none => simp [hmark]
    | some mark =>
      have hname := Mark.ofName?_eq_some_iff.1 hmark
      have hknown : knownNames.contains e.1 = true := by
        rw [hname]
        cases mark <;> decide
      simp only [Function.comp_apply, hmark, hknown, if_true]
  rw [hmarks, hmarks, h]

theorem carries_eq_of_known (h : s.known = r.known) (mark : Mark) :
    s.carries mark = r.carries mark := by
  rw [carries, carries, marks_eq_of_known h]

theorem wrap_eq_of_known (h : s.known = r.known) : s.wrap = r.wrap := by
  have hurl : s.url = r.url := by
    rw [url, url, get?_eq_of_known h (by decide)]
  funext x mark
  cases mark <;> simp only [wrap, hurl]

theorem isTerminator_eq_of_known (h : s.known = r.known) : s.isTerminator = r.isTerminator := by
  rw [isTerminator, isTerminator, get?_eq_of_known h (by decide)]

/-- Whether a run says a formula, and not its text: it is no code, and its formula shows. -/
def isFormula (r : Run) : Bool :=
  !r.attributes.contains "inlineCode" &&
    match r.attributes.get? "equation" with
    | some equation => !Text.allBlank equation.toList
    | none => false

/-- A run that says no formula is code or text. -/
theorem leaf_eq_of_not_isFormula (h : r.isFormula = false) :
    r.leaf = if r.attributes.contains "inlineCode" then .code r.text else .text r.text := by
  rw [leaf]
  cases hcode : r.attributes.contains "inlineCode" with
  | true => rfl
  | false =>
    cases hequation : r.attributes.get? "equation" with
    | none => rfl
    | some equation =>
      simp only [isFormula, hcode, hequation, Bool.not_false, Bool.true_and,
        Bool.not_eq_false'] at h
      simp only [Text.allBlank_dropFinalBreak, h, if_true]

/-! ## Cutting a run in two -/

/-- Two runs that are a run cut in two: they spell its text, and agree with it on everything
that phrasing knows. -/
structure SplitsInto (r a b : Run) : Prop where
  text : a.text ++ b.text = r.text
  left : a.known = r.known
  right : b.known = r.known

theorem SplitsInto.length (h : r.SplitsInto a b) : a.length + b.length = r.length := by
  rw [Run.length, Run.length, Run.length, ← h.text, String.length_append]

/-- The leaves of the two parts are the halves of the leaf. -/
theorem SplitsInto.leaf (h : r.SplitsInto a b) (hplain : r.isFormula = false) :
    Inline.Halves r.leaf a.leaf b.leaf := by
  have hpart : ∀ {s : Run}, s.known = r.known → s.isFormula = false := by
    intro s hs
    rwa [isFormula, contains_eq_of_known hs (by decide), get?_eq_of_known hs (by decide)]
  rw [leaf_eq_of_not_isFormula hplain, leaf_eq_of_not_isFormula (hpart h.left),
    leaf_eq_of_not_isFormula (hpart h.right), contains_eq_of_known h.left (by decide),
    contains_eq_of_known h.right (by decide), ← h.text]
  cases r.attributes.contains "inlineCode" with
  | true => exact Inline.Halves.code a.text b.text
  | false => exact Inline.Halves.text a.text b.text

theorem reach_cons (mark : Mark) (x : Run) (xs : List Run) :
    reach mark (x :: xs) = if x.carries mark then x.length + reach mark xs else 0 := by
  rw [reach, List.takeWhile_cons]
  cases x.carries mark <;> rfl

/-- Over two runs that carry what a run carries and are together as long, a mark reaches as far as
over the run. -/
theorem reach_split (hlength : a.length + b.length = r.length) (ha : a.known = r.known)
    (hb : b.known = r.known) (mark : Mark) (xs ys : List Run) :
    reach mark (xs ++ a :: b :: ys) = reach mark (xs ++ r :: ys) := by
  induction xs with
  | nil =>
    simp only [List.nil_append, reach_cons, carries_eq_of_known ha, carries_eq_of_known hb,
      ← hlength]
    cases r.carries mark
    · rfl
    · simp only [if_true]
      omega
  | cons x xs ih => rw [List.cons_append, List.cons_append, reach_cons, reach_cons, ih]

/-- The marks of a run are ordered alike wherever their spans are alike. -/
theorem nesting_congr {before before' after after' : List Run} (hmarks : s.marks = r.marks)
    (hspan : ∀ mark ∈ r.marks, s.span before' after' mark = r.span before after mark) :
    s.nesting before' after' = r.nesting before after := by
  have hsort := List.map_mergeSort (f := id) (l := r.marks)
    (r := fun m n => decide (s.span before' after' m ≤ s.span before' after' n))
    (s := fun m n => decide (r.span before after m ≤ r.span before after n))
    (fun m hm n hn => by rw [hspan m hm, hspan n hn]; rfl)
  rw [List.map_id, List.map_id] at hsort
  rw [nesting, nesting, hmarks, hsort]

theorem toInline_congr {before before' after after' : List Run}
    (hbefore : ∀ mark, reach mark before' = reach mark before)
    (hafter : ∀ mark, reach mark after' = reach mark after) :
    r.toInline before' after' = r.toInline before after := by
  have hnesting : r.nesting before' after' = r.nesting before after :=
    nesting_congr rfl fun mark _ => by rw [span, span, hbefore, hafter]
  rw [toInline, toInline, hnesting]

theorem halves_foldl_wrap {x y z : Inline} (h : Inline.Halves x y z) (marks : List Mark) :
    Inline.Halves (marks.foldl r.wrap x) (marks.foldl r.wrap y) (marks.foldl r.wrap z) := by
  induction marks generalizing x y z with
  | nil => exact h
  | cons mark marks ih => exact ih (h.wrap r mark)

/-- The two parts of a run become the halves of what the run becomes. -/
theorem SplitsInto.toInline (h : r.SplitsInto a b) (hplain : r.isFormula = false)
    (before after : List Run) :
    Inline.Halves (r.toInline before after) (a.toInline before (b :: after))
      (b.toInline (a :: before) after) := by
  have hcarries : ∀ {mark}, mark ∈ r.marks → r.carries mark = true := Run.carries_iff.2
  have hleft : a.nesting before (b :: after) = r.nesting before after := by
    refine nesting_congr (marks_eq_of_known h.left) fun mark hmark => ?_
    rw [span, span, reach_cons, carries_eq_of_known h.right, hcarries hmark, if_pos rfl, ← h.length]
    omega
  have hright : b.nesting (a :: before) after = r.nesting before after := by
    refine nesting_congr (marks_eq_of_known h.right) fun mark hmark => ?_
    rw [span, span, reach_cons, carries_eq_of_known h.left, hcarries hmark, if_pos rfl, ← h.length]
    omega
  rw [Run.toInline, Run.toInline, Run.toInline, hleft, hright, wrap_eq_of_known h.left,
    wrap_eq_of_known h.right]
  exact halves_foldl_wrap (h.leaf hplain) _

/-- A run says no formula if it is code, or if its equation is absent or blank. -/
theorem isFormula_eq_false (h : r.attributes.contains "inlineCode" = true ∨
    ∀ equation ∈ r.attributes.get? "equation", Text.allBlank equation.toList = true) :
    r.isFormula = false := by
  rw [isFormula]
  rcases h with hcode | hblank
  · rw [hcode]
    rfl
  · cases hequation : r.attributes.get? "equation" with
    | none => exact Bool.and_false _
    | some equation => simp only [hblank equation hequation, Bool.not_true, Bool.and_false]

end Run

namespace RichText

open Run

variable {r a b : Run}

/-- Runs become the same inlines after runs over which marks reach equally far. -/
theorem inlinesFrom_congr {before before' : List Run}
    (h : ∀ mark, reach mark before' = reach mark before) (runs : List Run) :
    inlinesFrom before' runs = inlinesFrom before runs := by
  induction runs generalizing before before' with
  | nil => rfl
  | cons x xs ih =>
    have hnext : ∀ mark, reach mark (x :: before') = reach mark (x :: before) := by
      intro mark
      rw [reach_cons, reach_cons, h]
    rw [inlinesFrom, inlinesFrom, toInline_congr h fun _ => rfl, ih hnext]

/-- Where a run is cut in two, its inline comes in two halves and every other run becomes what it
was. -/
theorem exists_halves (h : r.SplitsInto a b) (hplain : r.isFormula = false)
    (before xs ys : List Run) :
    ∃ front back x y z, Inline.Halves x y z ∧
      inlinesFrom before (xs ++ r :: ys) = front ++ x :: back ∧
      inlinesFrom before (xs ++ a :: b :: ys) = front ++ y :: z :: back := by
  induction xs generalizing before with
  | nil =>
    have hlength : b.length + a.length = r.length := (Nat.add_comm _ _).trans h.length
    have hback : inlinesFrom (b :: a :: before) ys = inlinesFrom (r :: before) ys :=
      inlinesFrom_congr (fun mark => reach_split hlength h.right h.left mark [] before) ys
    refine ⟨[], _, _, _, _, h.toInline hplain before ys, rfl, ?_⟩
    rw [List.nil_append, inlinesFrom, inlinesFrom, hback]
    rfl
  | cons x xs ih =>
    obtain ⟨front, back, whole, left, right, hhalves, hwhole, hsplit⟩ := ih (x :: before)
    have hhere : x.toInline before (xs ++ a :: b :: ys) = x.toInline before (xs ++ r :: ys) :=
      toInline_congr (fun _ => rfl) fun mark => reach_split h.length h.left h.right mark xs ys
    refine ⟨x.toInline before (xs ++ r :: ys) :: front, back, whole, left, right, hhalves, ?_, ?_⟩
    · rw [List.cons_append, inlinesFrom, hwhole, List.cons_append]
    · rw [List.cons_append, inlinesFrom, hsplit, hhere, List.cons_append]

/-- Splitting a run that says no formula, into two that spell the same text and agree with it on
all that phrasing knows, leaves the phrasing of a list of runs as it is. -/
theorem inlines_split (before after : List Run) (r a b : Run)
    (hplain : r.attributes.contains "inlineCode" = true ∨
      ∀ equation ∈ r.attributes.get? "equation", Text.allBlank equation.toList = true)
    (htext : a.text ++ b.text = r.text) (ha : a.known = r.known) (hb : b.known = r.known) :
    inlines (before ++ a :: b :: after) = inlines (before ++ r :: after) := by
  have h : r.SplitsInto a b := ⟨htext, ha, hb⟩
  have hformula : r.isFormula = false := isFormula_eq_false hplain
  cases hend : r.isTerminator with
  | true =>
    have hwritten : written (before ++ a :: b :: after) = written (before ++ r :: after) := by
      simp [written, isTerminator_eq_of_known ha, isTerminator_eq_of_known hb, hend]
    rw [inlines, inlines, hwritten]
  | false =>
    have hwhole : written (before ++ r :: after) = written before ++ r :: written after := by
      simp [written, hend]
    have hparts : written (before ++ a :: b :: after) =
        written before ++ a :: b :: written after := by
      simp [written, isTerminator_eq_of_known ha, isTerminator_eq_of_known hb, hend]
    obtain ⟨front, back, x, y, z, hhalves, hx, hyz⟩ :=
      exists_halves h hformula [] (written before) (written after)
    rw [inlines, inlines, hwhole, hparts, hx, hyz, Inline.coalesce_halves hhalves]

/-- A bold and italic word. -/
def wholeWord : Run := ⟨"two", .ofList [("italic", "true"), ("author", "1"), ("bold", "true")]⟩

/-- The first letter of the word, written by someone else. -/
def firstLetter : Run := ⟨"t", .ofList [("author", "2"), ("italic", "true"), ("bold", "true")]⟩

/-- The rest of the word. -/
def lastLetters : Run := ⟨"wo", .ofList [("italic", "true"), ("bold", "true")]⟩

/-- It does not show who wrote which letter of a word between a bold and an italic one. -/
theorem inlines_split_wholeWord :
    (wholeWord.attributes.contains "inlineCode" = true ∨
        ∀ equation ∈ wholeWord.attributes.get? "equation",
          Text.allBlank equation.toList = true) ∧
      firstLetter.text ++ lastLetters.text = wholeWord.text ∧
      firstLetter.known = wholeWord.known ∧ lastLetters.known = wholeWord.known ∧
      inlines ([⟨"one ", .ofList [("bold", "true")]⟩] ++ firstLetter :: lastLetters ::
          [⟨" three", .ofList [("italic", "true")]⟩, Run.terminator]) =
        inlines ([⟨"one ", .ofList [("bold", "true")]⟩] ++ wholeWord ::
          [⟨" three", .ofList [("italic", "true")]⟩, Run.terminator]) := by
  have hplain : wholeWord.attributes.contains "inlineCode" = true ∨
      ∀ equation ∈ wholeWord.attributes.get? "equation",
        Text.allBlank equation.toList = true := by
    decide
  have htext : firstLetter.text ++ lastLetters.text = wholeWord.text := by decide
  have hleft : firstLetter.known = wholeWord.known := by decide
  have hright : lastLetters.known = wholeWord.known := by decide
  exact ⟨hplain, htext, hleft, hright, inlines_split _ _ _ _ _ hplain htext hleft hright⟩

end RichText

end DocExport
