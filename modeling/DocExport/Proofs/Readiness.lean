import DocExport.Proofs.TableRows

/-!
# What a page waits for

A page is refused while a block directly inside it is pending.  Synced blocks are not looked into:
a pending block that stands in one of them is not waited for, although what else stands there
becomes a part of the page.  Such a block leaves no trace in the document.

* **Main results.** `Document.convert_page` (what becomes of a page),
  `Document.ofBlock_loadedInside` (pending blocks leave no trace), `Document.waitsForDirect` (what a
  page waits for, and when opening its synced blocks makes no difference) and
  `Document.not_waiting_pageOfSynced` (a pending block that is not waited for).
-/

namespace DocExport

theorem Kind.isPending_iff {kind : Kind} : kind.isPending = true ↔ kind = .pending := by
  cases kind <;> simp [isPending]

/-! ## Opening synced blocks -/

namespace Block

/-- A block with the synced blocks inside it opened, so that what stands in them stands directly
inside the block. -/
def openedInside (b : Block) : Block := { b with children := allOpened b.children }

/-- The same without the pending blocks that stand directly inside the block then. -/
def loadedInside (b : Block) : Block :=
  { b with children := (allOpened b.children).filter fun c => !c.kind.isPending }

/-- A block directly inside has not been loaded. -/
def HoldsPending (b : Block) : Prop := ∃ c ∈ b.children, c.kind = .pending

theorem isReady_iff (b : Block) : b.isReady = true ↔ ¬ b.HoldsPending := by
  simp [isReady, HoldsPending, ← Kind.isPending_iff]

/-- Opening synced blocks loses no pending block. -/
theorem HoldsPending.openedInside {b : Block} (h : b.HoldsPending) :
    b.openedInside.HoldsPending := by
  obtain ⟨c, hc, hpending⟩ := h
  have hself : c.opened = [c] := opened_eq (by rw [hpending]; simp)
  refine ⟨c, ?_, hpending⟩
  show c ∈ allOpened b.children
  rw [allOpened_eq_flatMap]
  exact List.mem_flatMap.2 ⟨c, hc, hself ▸ List.mem_singleton_self c⟩

/-- Pending blocks contribute nothing. -/
theorem allNodes_filter_isPending (bs : List Block) (place : Place) :
    allNodes place (bs.filter fun b => !b.kind.isPending) = allNodes place bs := by
  have hsingle : bs.filter (fun b => !b.kind.isPending) =
      bs.flatMap fun b => if b.kind.isPending then [] else [b] := by
    induction bs with
    | nil => rfl
    | cons b bs ih =>
      rw [List.flatMap_cons, List.filter_cons, ih]
      cases b.kind.isPending <;> rfl
  rw [hsingle]
  refine allNodes_flatMap fun b _ => ?_
  split
  · rename_i hpending
    obtain ⟨kind, zone, children⟩ := b
    obtain rfl : kind = .pending := Kind.isPending_iff.1 hpending
    rfl
  · exact allNodes_singleton b

end Block

/-! ## Converting pages -/

namespace Document

theorem ofBlock_withChildren {b : Block} {children : List Block}
    (h : ∀ place, Block.allNodes place children = Block.allNodes place b.children)
    (slots : Slots) : ofBlock { b with children := children } slots = ofBlock b slots := by
  rw [ofBlock, ofBlock, Block.nodes_withChildren h]

theorem ofBlock_openedInside (b : Block) (slots : Slots) :
    ofBlock b.openedInside slots = ofBlock b slots :=
  ofBlock_withChildren (fun place => Block.allNodes_allOpened b.children place) slots

/-- Pending blocks leave no trace in the document of a block. -/
theorem ofBlock_loadedInside (b : Block) (slots : Slots) :
    ofBlock b.loadedInside slots = ofBlock b slots :=
  ofBlock_withChildren (fun place => (Block.allNodes_filter_isPending _ place).trans
    (Block.allNodes_allOpened b.children place)) slots

/-- What becomes of a page: it is refused if it is not ready, and becomes a document otherwise. -/
theorem convert_page {b : Block} (h : b.kind = .page) :
    convert b = if b.isReady then .ok (ofBlock b {}) else .error .stillLoading := by
  unfold convert
  rw [h]
  cases b.isReady <;> rfl

theorem convert_eq_iff {b c : Block} (hb : b.kind = .page) (hc : c.kind = .page)
    (hsame : ofBlock b {} = ofBlock c {}) : convert b = convert c ↔ b.isReady = c.isReady := by
  rw [convert_page hb, convert_page hc, hsame]
  cases b.isReady <;> cases c.isReady <;> simp

/-- What a page waits for before it becomes a document. -/
structure WaitsForDirect (page : Block) : Prop where
  /-- It is ready if no block directly inside it is pending. -/
  ready : page.isReady = true ↔ ¬ page.HoldsPending
  /-- It is refused as still loading exactly if one is. -/
  refused : convert page = .error .stillLoading ↔ page.HoldsPending
  /-- If none is, it becomes a document, and pending blocks that stand in its synced blocks leave no
  trace there. -/
  converted : ¬ page.HoldsPending → convert page = .ok (ofBlock page.loadedInside {})
  /-- A page that is refused is refused with its synced blocks opened as well. -/
  opened : convert page = .error .stillLoading →
    convert page.openedInside = .error .stillLoading
  /-- The page and the page with its synced blocks opened get the same answers, unless all of the
  pending blocks that come to light stand in synced blocks. -/
  agrees : (page.openedInside.isReady = page.isReady ∧
      convert page.openedInside = convert page) ↔
    (page.openedInside.HoldsPending → page.HoldsPending)

/-- A page waits for the blocks directly inside it, and for no others. -/
theorem waitsForDirect (zone : Option Zone) (bs : List Block) :
    WaitsForDirect ⟨.page, zone, bs⟩ := by
  generalize hpage : (⟨.page, zone, bs⟩ : Block) = page
  have hkind : page.kind = .page := by rw [← hpage]
  have hopened : page.openedInside.kind = .page := hkind
  have hrefused : ∀ b : Block, b.kind = .page →
      (convert b = .error .stillLoading ↔ b.HoldsPending) := by
    intro b hb
    rw [← not_iff_not, ← b.isReady_iff, convert_page hb]
    cases b.isReady <;> simp
  refine ⟨page.isReady_iff, hrefused page hkind, fun h => ?_, fun h => ?_, ?_⟩
  · rw [convert_page hkind, if_pos (page.isReady_iff.2 h), ofBlock_loadedInside]
  · exact (hrefused _ hopened).2 ((hrefused page hkind).1 h).openedInside
  · rw [convert_eq_iff hopened hkind (ofBlock_openedInside page {}), and_self, Bool.eq_iff_iff,
      Block.isReady_iff, Block.isReady_iff, not_iff_not]
    exact ⟨Iff.mp, fun h => ⟨h, Block.HoldsPending.openedInside⟩⟩

/-- A page with a pending block in a synced one. -/
def pageOfSynced : Block := { kind := .page, children := [{ kind := .synced, children :=
  [{ kind := .pending }] }] }

/-- A pending block that stands in a synced one is not waited for: the page is ready and becomes an
empty document, but would be refused if its synced block were opened. -/
theorem not_waiting_pageOfSynced :
    pageOfSynced.kind = .page ∧ pageOfSynced.openedInside.HoldsPending ∧
      pageOfSynced.isReady = true ∧ convert pageOfSynced = .ok ({}, {}) ∧
      pageOfSynced.openedInside.isReady = false ∧
      convert pageOfSynced.openedInside = .error .stillLoading :=
  ⟨rfl, ⟨{ kind := .pending }, List.mem_singleton_self _, rfl⟩, rfl, rfl, rfl, rfl⟩

end Document

end DocExport
