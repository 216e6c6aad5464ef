import DocExport.Proofs.BlankLines
import DocExport.Proofs.Containers

/-!
# Numbers of ordered items

An ordered block asks for its number in a text.  Four steps bring that number into Markdown: the
text is read, items are gathered into lists where their numbers count up by one, a list starts
with the number of its first item, and the items of a list are numbered from there.  Together they
print every item with the number it asks for.

* **Main results.** `Numbering.ofText_of_spells` (a number that is spelled out is read),
  `Node.groupItems_counted` (items of one list count up by one), `Node.write_countedList` (every
  item has its own number), `Node.flow_countedLists` (the lists of a run take turns in how they
  are marked) and `Block.holdsRun_of_isOrderedRun` (all of it for a run of ordered blocks in a
  container).
-/

namespace DocExport

-- powers are the plain ones, whatever else is imported beside this module
attribute [local instance (2000)] instPowNat

/-! ## Spelling numbers -/

namespace Text

/-- A text spells a number: it is a row of decimal digits, perhaps with zeros at its head, with
nothing but blanks around it. -/
def Spells (s : String) (n : Nat) : Prop :=
  ∃ before digits after, s.toList = before ++ digits ++ after ∧
    allBlank before = true ∧ allBlank after = true ∧
    digits ≠ [] ∧ digits.all Char.isDigit = true ∧ Nat.ofDigitChars 10 digits 0 = n

theorem digit?_of_isDigit {c : Char} (h : c.isDigit = true) :
    digit? c = some (c.toNat - '0'.toNat) := by
  rw [digit?, if_pos]
  rw [Char.isDigit, Bool.and_eq_true, decide_eq_true_eq, decide_eq_true_eq] at h
  exact h

/-- Digits that follow a number are read on from it. -/
theorem foldlM_of_isDigit {cs : List Char} (h : ∀ c ∈ cs, c.isDigit = true) (n : Nat) :
    cs.foldlM (fun n c => (digit? c).map (10 * n + ·)) n = some (Nat.ofDigitChars 10 cs n) := by
  induction cs generalizing n with
  | nil => rfl
  | cons c cs ih =>
    obtain ⟨hc, hcs⟩ := List.forall_mem_cons.1 h
    rw [List.foldlM_cons, digit?_of_isDigit hc, Nat.ofDigitChars_cons]
    exact ih hcs _

theorem decimal?_of_isDigit {cs : List Char} (hne : cs ≠ []) (h : ∀ c ∈ cs, c.isDigit = true) :
    decimal? cs = some (Nat.ofDigitChars 10 cs 0) := by
  rw [decimal?, if_neg (by simpa using hne), foldlM_of_isDigit h]

/-- A row of characters that show is all that trimming leaves of it and the blanks around it. -/
theorem trim_between {before mid after : List Char} (hbefore : allBlank before = true)
    (hafter : allBlank after = true) (hne : mid ≠ []) (hmid : ∀ c ∈ mid, isBlank c = false) :
    trim (before ++ mid ++ after) = mid := by
  have hstart : trimStart (before ++ mid ++ after) = mid ++ after := by
    rw [trimStart, List.append_assoc, List.dropWhile_append_of_pos (List.all_eq_true.1 hbefore)]
    obtain ⟨c, cs, rfl⟩ := List.exists_cons_of_ne_nil hne
    have hc : ¬ isBlank c = true := by simp [hmid c List.mem_cons_self]
    rw [List.cons_append, List.dropWhile_cons_of_neg hc]
  have hend : trimEnd after = [] := (trimEnd_eq_nil after).2 hafter
  obtain ⟨cs, c, rfl⟩ := (List.eq_nil_or_concat mid).resolve_left hne
  have hc : isBlank c = false := hmid c (by simp)
  rw [trim, hstart, List.concat_eq_append, trimEnd_append_of_shown cs after hc, hend,
    List.append_nil]

end Text

/-- A number below `2 ^ 32` that is spelled out is the number that is asked for. -/
theorem Numbering.ofText_of_spells {s : String} {n : Nat} (hs : Text.Spells s n)
    (hn : n < 2 ^ (32 : Nat)) : Numbering.ofText s = .number n := by
  obtain ⟨before, digits, after, hsplit, hbefore, hafter, hne, hall, hvalue⟩ := hs
  have hdigits : ∀ c ∈ digits, c.isDigit = true := List.all_eq_true.1 hall
  have htrim : Text.trim s.toList = digits := by
    rw [hsplit]
    exact Text.trim_between hbefore hafter hne fun c hc => Text.isBlank_of_isDigit (hdigits c hc)
  have hread : Text.decimal? (Text.trim s.toList) = some n := by
    rw [htrim, Text.decimal?_of_isDigit hne hdigits, hvalue]
  rw [Numbering.ofText, hread]
  exact if_pos hn

/-! ## Lists of counted items -/

/-- An item of an ordered list that asks for a number. -/
structure CountedItem where
  /-- The number. -/
  number : Nat
  /-- The item. -/
  item : ListItem Node
  /-- It is not a task. -/
  unchecked : item.checked = none
  /-- It asks for the number. -/
  asks : item.numbering = some (.number number)

namespace CountedItem

/-- Whether the second of two items asks for the number after that of the first. -/
def isNext (a b : CountedItem) : Bool := a.number + 1 == b.number

/-- A counted item as it stands among blocks. -/
def node (x : CountedItem) : Node := .listItem x.item

/-- The text of an item under its number, which has nine digits at most. -/
def markdown (style : Style) (slots : Slots) (m : Marker) (x : CountedItem) : List Char :=
  Node.writeItem style slots
    (Nat.toDigits 10 (min x.number 999999999) ++ [style.delimiterFor m]) x.item

theorem kind_eq_ordered (x : CountedItem) : x.item.kind = .ordered := by
  rw [ListItem.kind_eq_ordered_iff]
  exact ⟨by rw [x.asks, Option.isSome_some], x.unchecked⟩

theorem isNumbered_node (x : CountedItem) : x.node.isNumbered = true := by
  show (x.item.kind == .ordered) = true
  rw [x.kind_eq_ordered, beq_self_eq_true]

theorem continues_item (a b : CountedItem) : a.item.continues b.item = isNext a b := by
  rw [ListItem.continues, a.kind_eq_ordered, b.kind_eq_ordered, a.asks, b.asks]
  rfl

theorem markdown_ne_nil (style : Style) (slots : Slots) (m : Marker) (x : CountedItem) :
    x.markdown style slots m ≠ [] := by
  rw [markdown, Node.writeItem]
  exact Layout.hung_ne_nil (Layout.allBlank_number _ _) _ _

end CountedItem

/-- Counted items that share a list. -/
abbrev CountedGroup := Adjacent.Group CountedItem

namespace Node

/-- The ordered list of counted items. -/
def countedList (g : CountedGroup) : Node :=
  .list true (some g.head.number) false (g.toList.map CountedItem.item)

/-- The text of a list in which every item has its own number. -/
def countedMarkdown (style : Style) (slots : Slots) (m : Marker) (g : CountedGroup) :
    List Char :=
  List.intercalate ['\n'] (g.toList.map (CountedItem.markdown style slots m))

/-- Counted items are gathered into one list for each group in which the numbers count up. -/
theorem groupItems_counted (xs : List CountedItem) :
    groupItems (xs.map CountedItem.node) =
      (Adjacent.groups CountedItem.isNext xs).map countedList := by
  have hgroups := groupItems_map CountedItem.item xs
  simp only [CountedItem.continues_item] at hgroups
  refine hgroups.trans (List.map_congr_left fun g _ => ?_)
  rw [listOf, g.head.asks]
  rfl

/-- Among other blocks, none of which goes on with them, counted items are gathered on their
own. -/
theorem groupItems_counted_between {xs ys : List Node} {items : List CountedItem}
    (hne : items ≠ []) (hxs : ∀ x ∈ xs.getLast?, x.isNumbered = false)
    (hys : ∀ y ∈ ys.head?, y.isNumbered = false) :
    groupItems (xs ++ items.map CountedItem.node ++ ys) =
      groupItems xs ++ (Adjacent.groups CountedItem.isNext items).map countedList ++
        groupItems ys := by
  have hfront : ∀ x ∈ xs.getLast?, ∀ y ∈ (items.map CountedItem.node).head?,
      sameList x y = false := by
    intro x hx y hy
    rw [List.head?_map, Option.mem_def, Option.map_eq_some_iff] at hy
    obtain ⟨item, -, rfl⟩ := hy
    exact sameList_eq_false (by simp [hxs x hx, item.isNumbered_node])
  have hback : ∀ x ∈ (xs ++ items.map CountedItem.node).getLast?, ∀ y ∈ ys.head?,
      sameList x y = false := by
    intro x hx y hy
    rw [List.getLast?_append_of_ne_nil _ (by simpa using hne), List.getLast?_map, Option.mem_def,
      Option.map_eq_some_iff] at hx
    obtain ⟨item, -, rfl⟩ := hx
    exact sameList_eq_false (by simp [hys y hy, item.isNumbered_node])
  rw [groupItems_append hback, groupItems_append hfront, groupItems_counted]

/-! ## Writing lists that count up -/

variable {style : Style} {slots : Slots}

/-- Items that count up are written under their own numbers. -/
theorem writeItems_counted {m : Marker} {x : CountedItem} {xs : List CountedItem}
    (h : (x :: xs).IsChain fun a b => b.number = a.number + 1) :
    writeItems style slots m true x.number ((x :: xs).map CountedItem.item) =
      (x :: xs).map (CountedItem.markdown style slots m) := by
  induction xs generalizing x with
  | nil => rfl
  | cons y ys ih =>
    obtain ⟨hxy, hys⟩ := List.isChain_cons_cons.1 h
    rw [List.map_cons, writeItems, ← hxy, ih hys]
    rfl

/-- In a list in which the numbers count up every item has its own number. -/
theorem write_countedList {m : Marker} {g : CountedGroup}
    (h : g.toList.IsChain fun a b => b.number = a.number + 1) :
    (countedList g).write style slots m = countedMarkdown style slots m g := by
  rw [countedList, write, Option.getD_some, Adjacent.Group.toList, writeItems_counted h]
  rfl

theorem countedMarkdown_ne_nil (m : Marker) (g : CountedGroup) :
    countedMarkdown style slots m g ≠ [] := by
  have hhead := CountedItem.markdown_ne_nil style slots m g.head
  rw [countedMarkdown, Adjacent.Group.toList, List.map_cons]
  cases g.tail <;> simp [List.intercalate, hhead]

/-- What separates a block from the list before it. -/
def betweenLists (tight : Bool) : List Char := if tight then ['\n'] else ['\n', '\n']

/-- The markers of lists of counted items one after another. -/
def markLists (previous : Option (Node × Marker)) :
    List CountedGroup → List (Marker × CountedGroup)
  | [] => []
  | g :: gs =>
      let m := markerAfter previous (countedList g)
      (m, g) :: markLists (some (countedList g, m)) gs

theorem map_snd_markLists (previous : Option (Node × Marker)) (gs : List CountedGroup) :
    (markLists previous gs).map Prod.snd = gs := by
  induction gs generalizing previous with
  | nil => rfl
  | cons g gs ih => rw [markLists, List.map_cons, ih]

theorem markerAfter_countedList (g h : CountedGroup) (m : Marker) :
    m ≠ markerAfter (some (countedList g, m)) (countedList h) := by
  cases m <;> simp [markerAfter, countedList]

/-- Lists one after another take turns in their markers. -/
theorem isChain_markLists (previous : Option (Node × Marker)) (gs : List CountedGroup) :
    (markLists previous gs).IsChain fun a b => a.1 ≠ b.1 := by
  induction gs generalizing previous with
  | nil => exact List.isChain_nil
  | cons g gs ih =>
    cases gs with
    | nil => exact List.isChain_singleton _
    | cons h hs => exact List.isChain_cons_cons.2 ⟨markerAfter_countedList g h _, ih _⟩

/-- A list is separated from whatever is written before it by the same line feeds. -/
theorem separator_countedList (tight : Bool) (previous : Option (Node × Marker))
    (g : CountedGroup) :
    separator style tight previous (countedList g) =
      if previous.isNone then [] else betweenLists tight := by
  cases previous with
  | none => rfl
  | some p =>
    have hneeds : needsBlankLine style p.1 (countedList g) = false := Bool.and_false _
    cases tight <;> simp [separator, hneeds, betweenLists]

/-- Lists one after another are written behind what separates the first from the block before
them. -/
theorem flow_countedLists {tight : Bool} {previous : Option (Node × Marker)}
    {gs : List CountedGroup} (hne : gs ≠ [])
    (h : ∀ g ∈ gs, g.toList.IsChain fun a b => b.number = a.number + 1) :
    flow style slots tight previous (gs.map countedList) =
      (if previous.isNone then [] else betweenLists tight) ++
        List.intercalate (betweenLists tight)
          ((markLists previous gs).map fun marked =>
            countedMarkdown style slots marked.1 marked.2) := by
  -- on the lists: each of them shows, so it is what the next one is written after
  induction gs generalizing previous with
  | nil => exact absurd rfl hne
  | cons g gs ih =>
    obtain ⟨hg, hgs⟩ := List.forall_mem_cons.1 h
    have hwrite : ∀ m, (countedList g).write style slots m = countedMarkdown style slots m g :=
      fun _ => write_countedList hg
    have hshown : ∀ m, (countedList g).write style slots m ≠ [] :=
      fun m => hwrite m ▸ countedMarkdown_ne_nil m g
    rw [List.map_cons, flow_cons_of_shown (hshown _), separator_countedList, hwrite]
    cases gs with
    | nil => simp [markLists, flow, List.intercalate]
    | cons k ks =>
      rw [ih (List.cons_ne_nil _ _) hgs]
      simp [markLists, List.intercalate]

end Node

/-! ## Runs of ordered blocks -/

/-- How the lists of a run of counted items stand in the node of a container. -/
structure Node.HoldsRun (n : Node) (before after : List Node)
    (lists : List CountedGroup) : Prop where
  /-- The lists stand in the node one after the other. -/
  held : n.held = before ++ lists.map countedList ++ after
  /-- An item in the list of the item before it has the next number. -/
  together : ∀ g ∈ lists, g.toList.IsChain fun x y => y.number = x.number + 1
  /-- An item that begins another list than that of the item before it has not the next number. -/
  apart : lists.IsChain fun g h => h.head.number ≠ g.last.number + 1
  /-- Wherever the node is written, every item is written under its own number, and two lists one
  after the other look different if the delimiters of the style do. -/
  written : ∀ style slots tight, ∃ marked : List (Marker × CountedGroup),
    marked.map Prod.snd = lists ∧
    (style.delimiter ≠ style.delimiterNext →
      marked.IsChain fun a b => style.delimiterFor a.1 ≠ style.delimiterFor b.1) ∧
    flow style slots tight none n.held =
      flow style slots tight none before ++
        ((if (lastShown style slots none before).isNone then [] else betweenLists tight) ++
          List.intercalate (betweenLists tight)
            (marked.map fun a => countedMarkdown style slots a.1 a.2)) ++
        flow style slots tight
          (lastShown style slots none (before ++ lists.map countedList)) after

/-- A node that holds the lists into which counted items are gathered holds them as a run. -/
theorem Node.holdsRun_groups {n : Node} {before after : List Node} {items : List CountedItem}
    (hne : items ≠ []) (hheld : n.held = before ++
      (Adjacent.groups CountedItem.isNext items).map countedList ++ after) :
    n.HoldsRun before after (Adjacent.groups CountedItem.isNext items) := by
  have htogether : ∀ g ∈ Adjacent.groups CountedItem.isNext items,
      g.toList.IsChain fun x y => y.number = x.number + 1 := by
    intro g hg
    refine (Adjacent.isChain_of_mem_groups hg).imp fun x y hxy => ?_
    exact (beq_iff_eq.1 hxy).symm
  have hgroups : Adjacent.groups CountedItem.isNext items ≠ [] := by
    obtain ⟨x, xs, rfl⟩ := List.exists_cons_of_ne_nil hne
    exact List.cons_ne_nil _ _
  refine ⟨hheld, htogether, ?_, fun style slots tight => ?_⟩
  · refine (Adjacent.isChain_groups CountedItem.isNext items).imp fun g h hgh hnext => ?_
    rw [CountedItem.isNext, beq_eq_false_iff_ne] at hgh
    exact hgh hnext.symm
  · refine ⟨markLists (lastShown style slots none before) _, map_snd_markLists _ _, ?_, ?_⟩
    · intro hdelimiters
      refine (isChain_markLists _ _).imp fun a b hab => ?_
      cases ha : a.1 <;> cases hb : b.1 <;>
        simp_all [Style.delimiterFor, hdelimiters.symm]
    · rw [hheld, flow_append, flow_append, flow_countedLists hgroups htogether]

namespace Block

/-- A block is an item of an ordered list that asks for a number below `2 ^ 32`. -/
def AsksFor (b : Block) (n : Nat) : Prop :=
  ∃ sequence, b.kind = .ordered sequence ∧ Text.Spells sequence n ∧ n < 2 ^ (32 : Nat)

/-- Some blocks are a run of ordered blocks between others: the others do not go on with it. -/
structure IsOrderedRun (front run back : List Block) : Prop where
  ne_nil : run ≠ []
  ordered : ∀ b ∈ run, b.kind.isOrdered = true
  before : ∀ b ∈ front.getLast?, b.kind.isOrdered = false
  after : ∀ b ∈ back.head?, b.kind.isOrdered = false

/-- Blocks that ask for numbers contribute items that ask for the same numbers. -/
theorem exists_counted {run : List Block} {ns : List Nat} (h : List.Forall₂ AsksFor run ns)
    (place : Place) (met : Gathered) :
    ∃ items : List CountedItem, items.map CountedItem.number = ns ∧
      ((allNodes place run).run met).1 = items.map CountedItem.node := by
  induction h generalizing met with
  | nil => exact ⟨[], rfl, rfl⟩
  | @cons b n bs ns hb _ ih =>
    obtain ⟨kind, zone, children⟩ := b
    obtain ⟨sequence, rfl, hspells, hn⟩ := hb
    obtain ⟨items, hnumbers, hitems⟩ := ih ((Block.nodes place _).run met).2
    let first : CountedItem :=
      ⟨n, itemOf none (some (Numbering.ofText sequence)) zone
        ((allNodes .elsewhere children).run met).1, rfl,
        congrArg some (Numbering.ofText_of_spells hspells hn)⟩
    refine ⟨first :: items, by rw [List.map_cons, hnumbers], ?_⟩
    rw [run_allNodes_cons, hitems]
    rfl

/-- A run of ordered blocks in a container, all of which ask for numbers below `2 ^ 32`, becomes
lists of the items that the blocks contribute.  Two neighbouring items are in one list exactly if
the second asks for the number after the first, every item is written under the number it asks for
or under the greatest number that an item may have, and lists one after the other take turns in
their delimiters. -/
theorem holdsRun_of_isOrderedRun {c : Block} {front run back : List Block} {ns : List Nat}
    (hc : c.kind.isContainer = true) (hsplit : splicedAll c.children = front ++ run ++ back)
    (hrun : IsOrderedRun front run back) (hasks : List.Forall₂ AsksFor run ns) (place : Place)
    (met : Gathered) :
    ∃ n before after, ∃ lists : List CountedGroup,
      ((c.nodes place).run met).1 = [n] ∧
      (lists.flatMap Adjacent.Group.toList).map CountedItem.number = ns ∧
      (lists.flatMap Adjacent.Group.toList).map CountedItem.node =
        ((allNodes .elsewhere run).run ((allNodes .elsewhere front).run met).2).1 ∧
      n.HoldsRun before after lists := by
  obtain ⟨n, own, stays, hn, hheld, hlist⟩ := exists_held hc place met
  -- the node holds what the spliced blocks are gathered into
  have hwalk : allNodes .elsewhere c.children = allNodes .elsewhere (front ++ run ++ back) := by
    rw [← hsplit, allNodes_splicedAll fun b _ => allNodes_inPlace b .elsewhere]
  have hshows : ∀ b ∈ front ++ run ++ back, b.kind.shows = true := by
    intro b hb
    rw [← hsplit] at hb
    exact shows_of_mem_nested_spliced c b (mem_allNested.2 ⟨b, hb, .inl rfl⟩)
  have hfront : ∀ b ∈ front, b.kind.shows = true :=
    fun b hb => hshows b (List.mem_append_left _ (List.mem_append_left _ hb))
  have hback : ∀ b ∈ back, b.kind.shows = true :=
    fun b hb => hshows b (List.mem_append_right _ hb)
  obtain ⟨items, hnumbers, hitems⟩ :=
    exists_counted hasks .elsewhere ((allNodes .elsewhere front).run met).2
  have hne : items ≠ [] := by
    rintro rfl
    obtain rfl : [] = ns := hnumbers
    exact hrun.ne_nil (List.forall₂_nil_right_iff.1 hasks)
  -- neither what is before the run nor what is after it goes on with its items
  rw [hwalk, run_allNodes_append, run_allNodes_append, hitems,
    Node.groupItems_counted_between hne (isNumbered_of_mem_getLast? hfront hrun.before met)
      (isNumbered_of_mem_head? hback hrun.after _), List.filter_append, List.filter_append] at hheld
  have hstay : ((Adjacent.groups CountedItem.isNext items).map Node.countedList).filter stays =
      (Adjacent.groups CountedItem.isNext items).map Node.countedList := by
    refine List.filter_eq_self.2 fun m hm => ?_
    obtain ⟨g, -, rfl⟩ := List.mem_map.1 hm
    exact hlist _ _ _ _
  rw [hstay, ← List.append_assoc, ← List.append_assoc] at hheld
  refine ⟨n, _, _, Adjacent.groups CountedItem.isNext items, hn, ?_, ?_,
    Node.holdsRun_groups hne hheld⟩
  · rw [Adjacent.flatMap_toList_groups, hnumbers]
  · rw [Adjacent.flatMap_toList_groups, hitems]

/-- The steps of a recipe, numbered unevenly. -/
def recipeSteps : List Block := [
  Block.ofRuns (.ordered " 007 ") [{ text := "a" }] [],
  Block.ofRuns (.ordered "8") [{ text := "b" }] [],
  Block.ofRuns (.ordered "4294967295") [{ text := "c" }] [],
  Block.ofRuns (.ordered "0") [{ text := "d" }] []]

/-- A quotation of the recipe, in which two steps are kept in step with another place. -/
def quotedRecipe : Block where
  kind := .quote
  children := [
    Block.ofRuns .text [{ text := "x" }] [],
    Block.ofRuns (.ordered " 007 ") [{ text := "a" }] [],
    { kind := .synced
      children := [
        Block.ofRuns (.ordered "8") [{ text := "b" }] [],
        { kind := .pending },
        Block.ofRuns (.ordered "4294967295") [{ text := "c" }] []] },
    { kind := .unsupported "grid" },
    Block.ofRuns (.ordered "0") [{ text := "d" }] [],
    { kind := .divider }]

/-- The steps of the recipe are written under their numbers, in three lists. -/
theorem holdsRun_quotedRecipe :
    splicedAll quotedRecipe.children =
        [Block.ofRuns .text [{ text := "x" }] []] ++ recipeSteps ++ [{ kind := .divider }] ∧
      List.Forall₂ AsksFor recipeSteps [7, 8, 4294967295, 0] ∧
      ∃ n before after, ∃ lists : List CountedGroup,
        ((quotedRecipe.nodes .elsewhere).run { issued := 0 }).1 = [n] ∧
        (lists.flatMap Adjacent.Group.toList).map CountedItem.number = [7, 8, 4294967295, 0] ∧
        n.HoldsRun before after lists := by
  have hsplit : splicedAll quotedRecipe.children =
      [Block.ofRuns .text [{ text := "x" }] []] ++ recipeSteps ++ [{ kind := .divider }] := rfl
  have hrun : IsOrderedRun [Block.ofRuns .text [{ text := "x" }] []] recipeSteps
      [{ kind := .divider }] :=
    ⟨List.cons_ne_nil _ _, by decide, by decide, by decide⟩
  have hasks : List.Forall₂ AsksFor recipeSteps [7, 8, 4294967295, 0] := by
    refine .cons ⟨_, rfl, ?_, by decide⟩ <| .cons ⟨_, rfl, ?_, by decide⟩ <|
      .cons ⟨_, rfl, ?_, by decide⟩ <| .cons ⟨_, rfl, ?_, by decide⟩ .nil
    · exact ⟨[' '], ['0', '0', '7'], [' '], by decide⟩
    · exact ⟨[], ['8'], [], by decide⟩
    · exact ⟨[], ['4', '2', '9', '4', '9', '6', '7', '2', '9', '5'], [], by decide⟩
    · exact ⟨[], ['0'], [], by decide⟩
  obtain ⟨n, before, after, lists, hn, hnumbers, -, hholds⟩ :=
    holdsRun_of_isOrderedRun rfl hsplit hrun hasks .elsewhere { issued := 0 }
  exact ⟨hsplit, hasks, n, before, after, lists, hn, hnumbers, hholds⟩

example :
    Node.documentMarkdown {} {} ((quotedRecipe.nodes .elsewhere).run { issued := 0 }).1 =
      "> x\n>\n> 7. a\n> 8. b\n>\n> 999999999) c\n>\n> 0. d\n>\n> ***\n" := by
  with_unfolding_all rfl

end Block

end DocExport
