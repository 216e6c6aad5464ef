import DocExport.Proofs.ShownBlocks

/-!
# Lists next to each other

Two lists of one kind that stand next to each other would be read as one list, so the second gets
the other marker.  The third is written after the second and gets the first marker again: however
many such lists there are, they take turns.  Blocks between them that come to nothing change none of
this, while any other block between them, also a list of the other kind, starts the turns anew.

* **Main results.** `Node.follows_of_split` (what a block is written after), `Node.markedWith_list`
  (where the sign of a list is found in what is written) and `Node.takesTurns_shown` (the lists
  among some blocks take turns).
-/

namespace DocExport

open Text

/-- The sign that marks the items of a list: the bullet, or what follows the numbers. -/
def Style.signFor (style : Style) (ordered : Bool) (m : Marker) : Char :=
  if ordered then style.delimiterFor m else style.bulletFor m

/-- Both pairs of signs of a style differ. -/
structure Style.SignsDiffer (style : Style) : Prop where
  bullets : style.bullet ≠ style.bulletNext
  delimiters : style.delimiter ≠ style.delimiterNext

theorem Style.signFor_ne {style : Style} (h : style.SignsDiffer) (ordered : Bool) {m m' : Marker}
    (hm : m ≠ m') : style.signFor ordered m ≠ style.signFor ordered m' := by
  cases ordered <;> cases m <;> cases m' <;>
    simp_all [signFor, delimiterFor, bulletFor, h.bullets, h.bullets.symm, h.delimiters,
      h.delimiters.symm]

theorem Style.MarkersShow.bulletsShow {style : Style} (h : style.MarkersShow) :
    style.BulletsShow :=
  ⟨h.bullet, h.bulletNext⟩

namespace Node

variable {style : Style} {slots : Slots} {tight : Bool} {ns : List Node} {ordered : Bool}

/-! ## Markers -/

/-- Whether a block is a list, and then whether that is an ordered one. -/
def ordered? : Node → Option Bool
  | .list ordered _ _ _ => some ordered
  | _ => none

theorem markerAfter_ne {previous : Node × Marker} {n : Node}
    (hprevious : previous.1.ordered? = some ordered) (hn : n.ordered? = some ordered) :
    markerAfter (some previous) n ≠ previous.2 := by
  obtain ⟨p, m⟩ := previous
  cases p <;> cases n <;> simp_all [ordered?]
  cases m <;> simp [markerAfter]

/-- A list that is not written after one of its kind has the primary marker. -/
theorem markerAfter_eq_primary {previous : Option (Node × Marker)} {n : Node}
    (hn : n.ordered? = some ordered) (h : ∀ p ∈ previous, p.1.ordered? ≠ some ordered) :
    markerAfter previous n = .primary := by
  cases previous with
  | none => rfl
  | some p =>
    obtain ⟨p, m⟩ := p
    have hp : p.ordered? ≠ some ordered := h (p, m) rfl
    cases p <;> cases n <;> cases m <;> simp_all [ordered?, markerAfter, eq_comm]

/-- Each block that shows follows from the one that shows before it, if there is one. -/
theorem follows_of_split {front back : List Shown} {t : Shown}
    (h : shown style slots tight none ns = front ++ t :: back) :
    t.Follows style tight (front.getLast?.map Shown.block) := by
  rcases List.eq_nil_or_concat front with rfl | ⟨before, s, rfl⟩
  · have hhead : t ∈ (shown style slots tight none ns).head? := by
      rw [h]
      rfl
    exact follows_head?_shown hhead
  · have hchain := @isChain_shown style slots tight none ns
    rw [h, List.isChain_append] at hchain
    have hlast : (before.concat s).getLast? = some s := by simp
    rw [hlast]
    exact hchain.2.2 s hlast t rfl

/-! ## Signs in what is written -/

/-- Each of the items that a reader finds in a list begins with the sign, behind digits if the list
is ordered, and there are some. -/
structure MarkedWith (sign : Char) (ordered : Bool) (written : List Char) : Prop where
  found : itemsIn (rows written) ≠ []
  begins : ∀ item ∈ itemsIn (rows written), ∃ number : List Char,
    number.all Char.isDigit = true ∧ (number = [] ↔ ordered = false) ∧
      number ++ [sign] <+: item.head

/-- A list is marked with the sign for its marker. -/
theorem markedWith_list (h : style.MarkersShow) (slots : Slots) (m : Marker)
    (start : Option Nat) (spread : Bool) {items : List (ListItem Node)} (hne : items ≠ []) :
    MarkedWith (style.signFor ordered m) ordered
      (write style slots m (.list ordered start spread items)) where
  found := by
    rw [itemsIn_list h, ← List.length_pos_iff, length_listLines]
    exact List.length_pos_iff.2 hne
  begins := by
    intro found hfound
    rw [itemsIn_list h] at hfound
    obtain ⟨k, hk⟩ := List.mem_iff_getElem?.1 hfound
    obtain ⟨hlt, -⟩ := List.getElem?_eq_some_iff.1 hk
    rw [length_listLines] at hlt
    have hbegins := (isItem_of_getElem? h (List.getElem?_eq_getElem hlt) hk).begins
    rw [Layout.itemMarker] at hbegins
    cases ordered with
    | false => exact ⟨[], rfl, by simp, hbegins⟩
    | true =>
      refine ⟨_, ?_, ?_, hbegins⟩
      · rw [List.all_eq_true]
        exact fun c hc => Nat.isDigit_of_mem_toDigits (by decide) (by decide) hc
      · simp [Nat.toDigits_ne_nil]

/-! ## Taking turns -/

/-- The lists among some blocks take turns in their signs. -/
structure TakesTurns (style : Style) (slots : Slots) (blocks : List Shown) : Prop where
  /-- The items of a list are marked with the sign for its marker. -/
  marked : ∀ s ∈ blocks, ∀ ordered, s.node.ordered? = some ordered →
    MarkedWith (style.signFor ordered s.marker) ordered (s.text style slots)
  /-- Two lists of one kind, the second directly after the first, have different signs. -/
  differ : ∀ front s t back ordered, blocks = front ++ s :: t :: back →
    s.node.ordered? = some ordered → t.node.ordered? = some ordered →
      style.signFor ordered s.marker ≠ style.signFor ordered t.marker
  /-- A list that is not directly after a list of its kind has the primary marker. -/
  primary : ∀ front t back ordered, blocks = front ++ t :: back →
    t.node.ordered? = some ordered → (∀ s ∈ front.getLast?, s.node.ordered? ≠ some ordered) →
      t.marker = .primary
  /-- So any number of lists of one kind, one directly after the other, have the two markers in
  turns. -/
  turns : ∀ front lists back ordered, blocks = front ++ lists ++ back →
    (∀ s ∈ lists, s.node.ordered? = some ordered) →
    (∀ s ∈ front.getLast?, s.node.ordered? ≠ some ordered) →
      ∀ i s, lists[i]? = some s → s.marker = if i % 2 = 0 then .primary else .other

/-- Two lists of one kind, the second directly after the first, have different markers. -/
theorem marker_ne_of_split {front back : List Shown} {s t : Shown}
    (h : shown style slots tight none ns = front ++ s :: t :: back)
    (hs : s.node.ordered? = some ordered) (ht : t.node.ordered? = some ordered) :
    s.marker ≠ t.marker := by
  have hsplit : shown style slots tight none ns = (front ++ [s]) ++ t :: back := by simpa using h
  have hfollows := follows_of_split hsplit
  rw [List.getLast?_concat, Option.map_some] at hfollows
  have hne : markerAfter (some s.block) t.node ≠ s.marker := markerAfter_ne hs ht
  rw [hfollows.marker]
  exact hne.symm

/-- A list that is not directly after a list of its kind has the primary marker. -/
theorem marker_eq_primary_of_split {front back : List Shown} {t : Shown}
    (h : shown style slots tight none ns = front ++ t :: back)
    (ht : t.node.ordered? = some ordered)
    (hfront : ∀ s ∈ front.getLast?, s.node.ordered? ≠ some ordered) : t.marker = .primary := by
  rw [(follows_of_split h).marker]
  refine markerAfter_eq_primary ht fun p hp => ?_
  obtain ⟨s, hs, rfl⟩ := Option.map_eq_some_iff.1 hp
  exact hfront s hs

/-- Lists of one kind, one directly after the other, have the two markers in turns. -/
theorem marker_eq_of_getElem? {front lists back : List Shown}
    (h : shown style slots tight none ns = front ++ lists ++ back)
    (hlists : ∀ s ∈ lists, s.node.ordered? = some ordered)
    (hfront : ∀ s ∈ front.getLast?, s.node.ordered? ≠ some ordered) {i : Nat} {s : Shown}
    (hs : lists[i]? = some s) : s.marker = if i % 2 = 0 then .primary else .other := by
  induction i generalizing s with
  | zero =>
    obtain ⟨rest, rfl⟩ : ∃ rest, lists = s :: rest := by
      cases lists with
      | nil => exact nomatch hs
      | cons s' rest => exact ⟨rest, by rw [Option.some.inj hs]⟩
    rw [List.append_assoc, List.cons_append] at h
    exact marker_eq_primary_of_split h (hlists s List.mem_cons_self) hfront
  | succ i ih =>
    obtain ⟨hlt, rfl⟩ := List.getElem?_eq_some_iff.1 hs
    have hprevious : lists[i]? = some lists[i] := List.getElem?_eq_getElem (by omega)
    have hpair : lists.drop i = lists[i] :: lists[i + 1] :: lists.drop (i + 2) := by
      rw [← List.drop_eq_getElem_cons hlt, ← List.drop_eq_getElem_cons (by omega)]
    have hsplit : shown style slots tight none ns = (front ++ lists.take i) ++
        lists[i] :: lists[i + 1] :: (lists.drop (i + 2) ++ back) := by
      have hwhole : lists = lists.take i ++ lists[i] :: lists[i + 1] :: lists.drop (i + 2) := by
        rw [← hpair, List.take_append_drop]
      calc shown style slots tight none ns = front ++ lists ++ back := h
        _ = front ++ (lists.take i ++ lists[i] :: lists[i + 1] :: lists.drop (i + 2)) ++ back := by
          rw [← hwhole]
        _ = _ := by simp only [List.append_assoc, List.cons_append]
    have hne : lists[i].marker ≠ lists[i + 1].marker :=
      marker_ne_of_split hsplit (hlists _ (List.getElem_mem _)) (hlists _ (List.getElem_mem _))
    rw [ih hprevious] at hne
    rcases Nat.mod_two_eq_zero_or_one i with heven | hodd
    · rw [if_pos heven] at hne
      rw [if_neg (by omega)]
      cases hm : lists[i + 1].marker with
      | primary => exact absurd hm.symm hne
      | other => rfl
    · rw [if_neg (by omega)] at hne
      rw [if_pos (by omega)]
      cases hm : lists[i + 1].marker with
      | primary => rfl
      | other => exact absurd hm.symm hne

/-- **Lists next to each other do not become one.**  Of the blocks that show, a list that directly
follows a list of its kind is marked with another sign than that one, and every other list with the
primary one. -/
theorem takesTurns_shown (h : style.MarkersShow) (hsigns : style.SignsDiffer) (slots : Slots)
    (tight : Bool) (siblings : List Node) :
    Joined style slots (flow style slots tight none siblings)
      (shown style slots tight none siblings) ∧
    (shown style slots tight none siblings).map Shown.node =
      siblings.filter (shows style slots) ∧
    TakesTurns style slots (shown style slots tight none siblings) := by
  refine ⟨joined_flow style slots tight siblings, map_node_shown h.bulletsShow none siblings, ?_⟩
  refine ⟨fun s hs ordered hordered => ?_, fun front s t back ordered hsplit hs ht => ?_,
    fun front t back ordered hsplit => marker_eq_primary_of_split hsplit,
    fun front lists back ordered hsplit hlists hfront i s =>
      marker_eq_of_getElem? hsplit hlists hfront⟩
  · obtain ⟨-, hshows⟩ := of_mem_shown hs
    obtain ⟨gap, m, n⟩ := s
    cases n with
    | list kind start spread items =>
      obtain rfl : kind = ordered := Option.some.inj hordered
      refine markedWith_list h slots m start spread fun hnone => hshows ?_
      rw [hnone, Shown.text, write]
      rfl
    | _ => exact nomatch hordered
  · exact Style.signFor_ne hsigns ordered (marker_ne_of_split hsplit hs ht)

/-- A list with one item of one word. -/
def wordList (ordered : Bool) (checked : Option Bool) (word : String) : Node :=
  .list ordered none false [{ checked, children := [.paragraph [.text word]] }]

/-- Lists of both kinds, with blocks among them that come to nothing. -/
def mixedLists : List Node := [
  wordList false none "a", .paragraph [], wordList false (some false) "b", .list true none false [],
  wordList false none "c", wordList true none "d", .heading 1 [], wordList true none "e",
  wordList false none "f"]

/-- They take turns, and begin anew where the kind changes. -/
theorem takesTurns_mixedLists :
    Style.MarkersShow {} ∧ Style.SignsDiffer {} ∧
    flow {} {} true none mixedLists = "* a\n- [ ] b\n* c\n1. d\n1) e\n* f".toList ∧
    (shown {} {} true none mixedLists).map Shown.node =
      mixedLists.filter (shows {} {}) ∧
    Joined {} {} (flow {} {} true none mixedLists) (shown {} {} true none mixedLists) ∧
    TakesTurns {} {} (shown {} {} true none mixedLists) := by
  have hmarkers : Style.MarkersShow {} := by decide
  have hsigns : Style.SignsDiffer {} := ⟨by decide, by decide⟩
  obtain ⟨hjoined, hnodes, hturns⟩ := takesTurns_shown hmarkers hsigns {} true mixedLists
  exact ⟨hmarkers, hsigns, by decide, hnodes, hjoined, hturns⟩

end Node

end DocExport
