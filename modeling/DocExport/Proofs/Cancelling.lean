import DocExport.Proofs.Asking
import DocExport.Proofs.Packages
import DocExport.Proofs.Undisturbed

/-!
# What a cancellation reaches

A fetch can be cancelled on its own, or all fetches of an export together.  The one reaches no fetch
but its own: all others come to what they would have come to anyway, whatever that does to the order
of the turns.  The other reaches every fetch, and those whose sources have not been asked by then
are over without being asked.

Entries that share a target are an exception in one respect.  The first of them to bring its bytes
gives the target its URL, and who that is does depend on what is cancelled.

* **Main results.** `Pool.CancelsWithin.reaches` says that no more is cancelled than a rule allows,
  `Pool.NoneOverdue.reaches` that no fetch waits for a cancellation that has come, and
  `Plan.exists_endsWith` how a run ends for each entry.  `Plan.cancelling_reaches_target` puts
  together what a cancellation does to an export.
-/

namespace DocExport

/-- A fetch that waits for its cancellation is not cancelled yet. -/
theorem Fetch.eq_false_of_advance_eq {α : Type} {cancelled : Bool} {f next : Fetch α}
    (h : f.advance cancelled = .waiting next) : cancelled = false := by
  induction f with
  | answer result => exact absurd h (by simp [advance])
  | pause resume => exact absurd h (by simp [advance])
  | awaitCancel rest ih =>
    cases cancelled with
    | false => rfl
    | true => exact ih h

namespace Archive

namespace Pool

variable {α : Type} {p q : Pool α} {i : Nat}

/-! ## Cancelling within bounds -/

/-- Nothing may be cancelled that is out of reach. -/
def Rule.cancelling (reach : Option Nat → Prop) : Rule α where
  mayCancel := reach

/-- Nothing that is out of reach has been cancelled, or is to be cancelled by a wish. -/
structure CancelsWithin (reach : Option Nat → Prop) (p : Pool α) : Prop where
  all : p.allCancelled = true → reach none
  single : ∀ j ∈ p.cancelled, reach (some j)
  wishes : ∀ w ∈ p.wishes, reach w.entry

namespace CancelsWithin

variable {reach : Option Nat → Prop}

/-- What is within reach may be cancelled. -/
theorem cancel (h : p.CancelsWithin reach) {entry : Option Nat} (hentry : reach entry) :
    (p.cancel entry).CancelsWithin reach := by
  obtain ⟨hall, hsingle, hwishes⟩ := h
  cases entry with
  | none => exact ⟨fun _ => hentry, hsingle, hwishes⟩
  | some k =>
    refine ⟨hall, fun j hj => ?_, hwishes⟩
    rcases List.mem_cons.1 hj with rfl | hj
    · exact hentry
    · exact hsingle j hj

theorem fulfil (h : p.CancelsWithin reach) (moment : Nat) :
    (p.fulfil moment).CancelsWithin reach :=
  fulfil_induction (motive := CancelsWithin reach)
    (fun w hw _ hq => hq.cancel (h.wishes w hw)) h moment

/-- A step by the rule cancels nothing that is out of reach. -/
theorem step (h : p.CancelsWithin reach) (hstep : StepBy (.cancelling reach) p q) :
    q.CancelsWithin reach := by
  cases hstep with
  | fill => exact ⟨h.all, h.single, h.wishes⟩
  | turn =>
    refine turn_induction (motive := CancelsWithin reach) ?_ ?_ ?_ _ _
    · exact fun _ _ _ _ hq => ⟨hq.all, hq.single, hq.wishes⟩
    · exact fun w hw _ hq => hq.cancel (h.wishes w hw)
    · exact ⟨h.all, h.single, h.wishes⟩
  | cancel hmay => exact h.cancel hmay

/-- **A schedule by the rule never cancels what is out of reach.** -/
theorem reaches (h : p.CancelsWithin reach) (hrun : p.ReachesBy (.cancelling reach) q) :
    q.CancelsWithin reach := by
  induction hrun with
  | refl => exact h
  | tail _ hstep ih => exact ih.step hstep

theorem isCancelled_eq_false (h : p.CancelsWithin reach) (hnone : ¬ reach none)
    (hi : ¬ reach (some i)) : p.isCancelled i = false := by
  have hall : p.allCancelled = false := by
    by_contra htrue
    exact hnone (h.all (by simpa using htrue))
  have hsingle : i ∉ p.cancelled := fun hmem => hi (h.single i hmem)
  simp [isCancelled, hall, hsingle]

end CancelsWithin

theorem cancelsWithin_start {reach : Option Nat → Prop} {wishes : List CancelWish}
    (hwishes : ∀ w ∈ wishes, reach w.entry) (limit : Nat) (sources : List (Fetch α)) :
    (start limit wishes sources).CancelsWithin reach := by
  refine CancelsWithin.fulfil ⟨?_, ?_, hwishes⟩ 0
  · exact fun h => Bool.noConfusion h
  · exact fun j hj => absurd hj List.not_mem_nil

/-! ## Cancelling all -/

/-- No fetch waits for a cancellation that has come. -/
def NoneOverdue (p : Pool α) : Prop := ∀ w ∈ p.waiting, p.isCancelled w.1 = false

theorem noneOverdue_cancel (p : Pool α) (entry : Option Nat) : (p.cancel entry).NoneOverdue := by
  intro w hw
  have hkept : (!(p.mark entry).isCancelled w.1) = true := (List.mem_filter.1 hw).2
  rw [Bool.not_eq_true'] at hkept
  exact hkept

namespace NoneOverdue

theorem settle (h : p.NoneOverdue) (i : Nat) (given : Except FetchFault α) :
    (p.settle i given).NoneOverdue := by
  have hlogged : { p with log := p.log ++ [Event.settled i given] }.NoneOverdue := h
  exact fulfil_induction (fun w _ q _ => noneOverdue_cancel q w.entry) hlogged _

/-- A fetch that runs waits only if it is not cancelled. -/
theorem proceed (h : p.NoneOverdue) (i : Nat) (f : Fetch α) : (p.proceed i f).NoneOverdue := by
  unfold Pool.proceed
  split
  · exact h.settle i _
  · exact h
  · rename_i next hadvance
    intro w hw
    rcases List.mem_append.1 hw with hw | hw
    · exact h w hw
    · rw [List.mem_singleton] at hw
      rw [hw]
      exact Fetch.eq_false_of_advance_eq hadvance

/-- A turn lets nobody wait for too long. -/
theorem turn (h : p.NoneOverdue) (i : Nat) (thread : Thread α) :
    (p.turn i thread).NoneOverdue := by
  cases thread with
  | first source =>
    rw [Pool.turn]
    split
    · exact h.settle i _
    · have hasked : { p with log := p.log ++ [Event.asked i] }.NoneOverdue := h
      exact hasked.proceed i source
  | resumed resume => exact h.proceed i _
  | woken next => exact h.proceed i next

/-- **However a pool is played, no fetch waits for a cancellation that has come.** -/
theorem reaches (h : p.NoneOverdue) (hrun : p.Reaches q) : q.NoneOverdue := by
  induction hrun with
  | refl => exact h
  | tail _ hstep ih =>
    cases hstep with
    | fill => exact ih
    | @turn front back i thread =>
      have htaken : (Pool.withQueue _ (front ++ back)).NoneOverdue := ih
      exact htaken.turn i thread
    | cancel entry => exact noneOverdue_cancel _ entry

end NoneOverdue

theorem noneOverdue_start (limit : Nat) (wishes : List CancelWish) (sources : List (Fetch α)) :
    (start limit wishes sources).NoneOverdue :=
  fulfil_induction (motive := NoneOverdue) (fun w _ q _ => noneOverdue_cancel q w.entry)
    (fun _ hw => absurd hw List.not_mem_nil) 0

/-- A pool in which every fetch is cancelled cannot stall. -/
theorem IsAtRest.isOver_of_isCancelled (h : p.IsAtRest) (hlimit : 0 < p.limit)
    (hoverdue : p.NoneOverdue) (hall : ∀ i, p.isCancelled i = true) : p.IsOver := by
  have hwaiting : p.waiting = [] := by
    refine List.eq_nil_iff_forall_not_mem.2 fun w hw => ?_
    have hnot := hoverdue w hw
    rw [hall] at hnot
    exact Bool.noConfusion hnot
  exact h.isOver hlimit (by simp [isStalled, hwaiting])

theorem isCancelled_of_allCancelled (h : p.allCancelled = true) (i : Nat) :
    p.isCancelled i = true := by
  rw [isCancelled, h, Bool.true_or]

theorem isCancelled_fulfil (h : p.isCancelled i = true) (moment : Nat) :
    (p.fulfil moment).isCancelled i = true :=
  fulfil_induction (motive := fun q => q.isCancelled i = true)
    (fun w _ _ hq => isCancelled_cancel hq w.entry) h moment

end Pool

/-! ## How a run ends for an entry -/

/-- A package has on it what the fetch of an entry came to. -/
structure Package.Tells (package : Package) (e : Entry) (result : Except FetchFault ByteArray) :
    Prop where
  /-- The archive holds the bytes under the path of the entry, if there are any. -/
  media : ∀ bytes, (e.path, bytes) ∈ package.contents.media ↔ result = .ok bytes
  /-- What is recorded under this path is the failure of the entry, if it went wrong. -/
  failures : ∀ f : Failure, f.path = e.path → (f ∈ package.failures ↔ e.failure result = some f)
  /-- The path is listed as cancelled if the fetch was cancelled. -/
  cancelled : e.path ∈ package.cancelled ↔ result = .error .cancelled

namespace Plan

variable {p : Plan} {slots : Slots} {wishes : List CancelWish} {pool : Pool ByteArray}
  {result : Nat → Except FetchFault ByteArray} {j : Nat} {e : Entry}

/-- How a run of a plan ends for one of its entries. -/
structure EndsWith (p : Plan) (slots : Slots) (pool : Pool ByteArray) (j : Nat) (e : Entry)
    (result : Except FetchFault ByteArray) : Prop where
  /-- Its fetch is settled with this result, and with no other. -/
  settled : ∀ r, (j, r) ∈ pool.settled ↔ r = result
  /-- The bytes of the result are kept for it. -/
  bytes : (p.harvest slots pool.settled).fetched.lookup j = result.toOption
  /-- Its target reads its path if there are bytes, and is still pending if there are none, unless
  another entry that shares the target brings bytes. -/
  target : (∀ k f bytes, p.entries[k]? = some f → f.target = e.target →
      (k, .ok bytes) ∈ pool.settled → k = j) →
    (p.harvest slots pool.settled).slots.read e.target = (e.member result).map Prod.fst
  /-- If there is a package, it tells the same. -/
  packaged : ∀ package, (p.report slots pool).outcome = .packaged package → package.Tells e result

/-- Where the paths are all different, a package tells what the fetch of each entry came to. -/
theorem tells_of_package {package : Package}
    (hsettled : pool.settled.Perm ((List.range p.entries.length).map fun i => (i, result i)))
    (hpaths : (p.entries.map Entry.path).Nodup) (he : p.entries[j]? = some e)
    (hpackage : p.package (p.harvest slots pool.settled) = .ok package) :
    package.Tells e (result j) := by
  obtain ⟨hmedia, hfailures, hcancelled⟩ := package_eq_ok hpackage
  constructor
  · intro bytes
    rw [hmedia, mediaMembers_harvest hsettled,
      mem_filterMap_results_of_path Entry.member (fun _ _ _ => Entry.path_of_member) hpaths he rfl]
    cases result j <;> simp [Entry.member]
  · intro f hf
    rw [hfailures, (failures_harvest_perm hsettled).mem_iff,
      mem_filterMap_results_of_path Entry.failure (fun _ _ _ => Entry.path_of_failure) hpaths he hf]
  · rw [hcancelled, (cancelled_harvest_perm hsettled).mem_iff,
      mem_filterMap_results_of_path Entry.cancelledPath
        (fun _ _ _ => Entry.path_of_cancelledPath) hpaths he rfl]
    rcases result j with fault | given
    · cases fault <;> simp [Entry.cancelledPath]
    · simp [Entry.cancelledPath]

/-- **However a plan is played, it ends in one way for each entry.** -/
theorem exists_endsWith (hpaths : (p.entries.map Entry.path).Nodup)
    (hpending : ∀ e ∈ p.entries, slots.read e.target = none)
    (hrun : (p.pool wishes).Reaches pool) (hover : pool.IsOver) (he : p.entries[j]? = some e) :
    ∃ result, p.EndsWith slots pool j e result := by
  obtain ⟨result, hsettled, -⟩ := exists_results hrun hover
  have hj : j < p.entries.length := (List.getElem?_eq_some_iff.1 he).1
  refine ⟨result j, ?_, lookup_fetched_harvest hsettled hj, ?_, ?_⟩
  · intro r
    rw [hsettled.mem_iff]
    constructor
    · intro h
      obtain ⟨i, -, heq⟩ := List.mem_map.1 h
      obtain ⟨rfl, rfl⟩ := Prod.mk.inj heq
      rfl
    · rintro rfl
      exact List.mem_map_of_mem (List.mem_range.2 hj)
  · intro hunshared
    exact read_harvest_of_unshared hsettled he hunshared (hpending e (List.mem_of_getElem? he))
  · intro package hreport
    exact tells_of_package hsettled hpaths he (report_eq_packaged hreport).2.1

/-! ## What a cancellation does to an export -/

/-- Cancelling one entry, whenever and however often, is no matter for the others. -/
structure SparesOthers (p : Plan) (slots : Slots) (wishes : List CancelWish) (i : Nat) :
    Prop where
  /-- No other entry is cancelled at any moment, the end of the report included. -/
  tokens : ∀ pool j, (p.pool wishes).ReachesBy (.cancelling (· = some i)) pool → j ≠ i →
    pool.isCancelled j = false ∧ (p.report slots pool).pool.isCancelled j = false
  /-- Every other entry ends in the same way as in any run in which nothing is cancelled. -/
  ends : ∀ pool calm j e, (p.pool wishes).ReachesBy (.cancelling (· = some i)) pool →
    pool.IsOver → (p.pool []).ReachesBy (.cancelling fun _ => False) calm → calm.IsOver →
    j ≠ i → p.entries[j]? = some e →
    ∃ result, p.EndsWith slots pool j e result ∧ p.EndsWith slots calm j e result

/-- Cancelling all entries at some moment reaches all of them. -/
structure StopsAll (p : Plan) (slots : Slots) (moment : Pool ByteArray) : Prop where
  /-- Every entry reads as cancelled from then on, the end of the report included. -/
  tokens : ∀ pool j, moment.Reaches pool →
    pool.isCancelled j = true ∧ (p.report slots pool).pool.isCancelled j = true
  /-- No source is asked that had not been asked by then. -/
  unasked : ∀ pool j, moment.Reaches pool → j ∉ moment.asked → j ∉ pool.asked
  /-- The run cannot stall any more. -/
  ends : ∀ pool, moment.Reaches pool → pool.IsAtRest → pool.IsOver
  /-- An entry whose source had not been asked is listed as cancelled, and not as a failure. -/
  listed : ∀ pool package j e, moment.Reaches pool → pool.IsOver →
    (p.report slots pool).outcome = .packaged package → p.entries[j]? = some e →
    j ∉ moment.asked → e.path ∈ package.cancelled ∧ ∀ f ∈ package.failures, f.path ≠ e.path

/-- A report brings no cancellation but those that are wished for. -/
theorem pool_report (p : Plan) (slots : Slots) (pool : Pool ByteArray) :
    (p.report slots pool).pool = pool ∨ (p.report slots pool).pool = pool.fulfil p.total := by
  unfold report
  split
  · exact .inl rfl
  · split
    · exact .inl rfl
    · exact .inr rfl

/-- Cancelling one entry spares the others. -/
theorem sparesOthers (hpaths : (p.entries.map Entry.path).Nodup)
    (hpending : ∀ e ∈ p.entries, slots.read e.target = none) {i : Nat}
    (hwishes : ∀ w ∈ wishes, w.entry = some i) : p.SparesOthers slots wishes i := by
  have hwithin : ∀ pool, (p.pool wishes).ReachesBy (.cancelling (· = some i)) pool →
      pool.CancelsWithin (· = some i) :=
    fun pool hrun => (Pool.cancelsWithin_start hwishes _ _).reaches hrun
  have hspared : ∀ pool : Pool ByteArray, pool.CancelsWithin (· = some i) → ∀ j, j ≠ i →
      pool.isCancelled j = false := by
    intro pool h j hj
    exact h.isCancelled_eq_false (by simp) (by simpa using hj)
  constructor
  · intro pool j hrun hj
    refine ⟨hspared pool (hwithin pool hrun) j hj, ?_⟩
    rcases p.pool_report slots pool with h | h
    · rw [h]
      exact hspared pool (hwithin pool hrun) j hj
    · rw [h]
      exact hspared _ ((hwithin pool hrun).fulfil _) j hj
  · intro pool calm j e hrun hover hcalm hcalmOver hj he
    obtain ⟨result, hends⟩ := exists_endsWith hpaths hpending hrun.reaches hover he
    obtain ⟨given, hgiven⟩ := exists_endsWith hpaths hpending hcalm.reaches hcalmOver he
    have hleft : calm.isCancelled j = false := by
      have hnothing : calm.CancelsWithin fun _ => False :=
        (Pool.cancelsWithin_start (by simp) _ _).reaches hcalm
      exact hnothing.isCancelled_eq_false id id
    have hleft' : pool.isCancelled j = false := hspared pool (hwithin pool hrun) j hj
    -- both runs leave the fetch to itself
    have hsame : (j, result) ∈ calm.settled := by
      rw [Pool.mem_settled_iff hcalm.reaches hcalmOver hleft,
        ← Pool.mem_settled_iff hrun.reaches hover hleft']
      exact (hends.settled result).2 rfl
    obtain rfl := (hgiven.settled result).1 hsame
    exact ⟨result, hends, hgiven⟩

/-- Cancelling all entries stops them all. -/
theorem stopsAll (hpaths : (p.entries.map Entry.path).Nodup)
    (hpending : ∀ e ∈ p.entries, slots.read e.target = none) {moment : Pool ByteArray}
    (hmoment : (p.pool wishes).Reaches moment) (hall : moment.allCancelled = true) :
    p.StopsAll slots moment := by
  have hcancelled : ∀ pool, moment.Reaches pool → ∀ j, pool.isCancelled j = true :=
    fun pool hrun j => Pool.isCancelled_reaches hrun (Pool.isCancelled_of_allCancelled hall j)
  have hunasked : ∀ pool j, moment.Reaches pool → j ∉ moment.asked → j ∉ pool.asked :=
    fun pool j hrun => Pool.not_mem_asked_of_isCancelled hrun (hcancelled moment .refl j)
  constructor
  · intro pool j hrun
    refine ⟨hcancelled pool hrun j, ?_⟩
    rcases p.pool_report slots pool with h | h
    · rw [h]
      exact hcancelled pool hrun j
    · rw [h]
      exact Pool.isCancelled_fulfil (hcancelled pool hrun j) _
  · exact hunasked
  · intro pool hrun hrest
    have hreach := hmoment.trans hrun
    have hlimit : 0 < pool.limit := by
      rw [Pool.limit_reaches hreach, Plan.pool, Pool.start, Pool.limit_fulfil]
      exact p.slotCount_pos
    exact hrest.isOver_of_isCancelled hlimit ((Pool.noneOverdue_start _ _ _).reaches hreach)
      (hcancelled pool hrun)
  · intro pool package j e hrun hover hreport he hasked
    have hreach := hmoment.trans hrun
    obtain ⟨result, hends⟩ := exists_endsWith hpaths hpending hreach hover he
    -- what is settled without having been asked is settled as cancelled
    have hresult : result = .error .cancelled := by
      have hmem : (j, result) ∈ pool.settled := (hends.settled result).2 rfl
      have hcounted := (Pool.counted_start _ _ _).reaches hreach
      exact (hcounted.refused j result hmem).resolve_left (hunasked pool j hrun hasked)
    have htells := hends.packaged package hreport
    refine ⟨htells.cancelled.2 hresult, fun f hf hpath => ?_⟩
    rw [htells.failures f hpath, hresult] at hf
    exact absurd hf (by simp [Entry.failure])

/-- **A cancellation reaches its target.**  Take the plan for a document, to be run with the targets
as they are.  Where nothing but one entry is ever cancelled, no other entry is, and all others end
with the same result, bytes and records as they do where nothing is cancelled, and with the same
target, unless another entry that shares it brings bytes.  Where all entries are cancelled at some
moment of a schedule, each of them is from then on, and those that have not been asked are never
asked and are listed as cancelled. -/
theorem cancelling_reaches_target {title : String} {d : Document} {settings : Settings}
    {style : Style} (hp : p = ofDocument title d slots settings style) :
    (∀ wishes i, (∀ w ∈ wishes, w.entry = some i) → p.SparesOthers slots wishes i) ∧
      ∀ wishes moment, (p.pool wishes).Reaches moment → moment.allCancelled = true →
        p.StopsAll slots moment := by
  subst hp
  have hpaths := nodup_paths_ofDocument title d slots settings style
  have hpending : ∀ e ∈ (ofDocument title d slots settings style).entries,
      slots.read e.target = none := fun _ => read_target_of_mem
  constructor
  · exact fun wishes i hwishes => sparesOthers hpaths hpending hwishes
  · exact fun wishes moment hmoment hall => stopsAll hpaths hpending hmoment hall

/-- An image that comes at once. -/
def promptImage : Media where
  name := "a.png"
  token := "A"
  source := .answer (.ok ⟨#[1]⟩)

/-- An image that takes its time, and gives up when it is cancelled. -/
def slowImage : Media where
  name := "b.png"
  token := "B"
  source := .pause fun cancelled => .answer (if cancelled then .error .cancelled else .ok ⟨#[2]⟩)

/-- A document with both of them. -/
def slowAndPrompt : Document :=
  let slow : Asset := ⟨.slot 0, "", some slowImage⟩
  let prompt : Asset := ⟨.slot 1, "", some promptImage⟩
  { children := [.paragraph [slow.image, prompt.image]]
    images := [slow, prompt] }

/-- Its plan. -/
def slowAndPromptPlan : Plan where
  stem := "notes"
  children := slowAndPrompt.children
  entries := [⟨.image, "images/b.png", slowImage, .slot 0⟩,
    ⟨.image, "images/a.png", promptImage, .slot 1⟩]
  settings := {}
  style := {}

/-- The first image is cancelled while it is under way, and the second one comes all the same.  Had
both been cancelled then, the second one would never have been asked for. -/
theorem cancelling_reaches_target_slowAndPrompt :
    slowAndPromptPlan = ofDocument "notes" slowAndPrompt { issued := 2 } {} {} ∧
      ∃ (pool calm moment last : Pool ByteArray) (package : Package) (e : Entry),
        slowAndPromptPlan.entries[1]? = some e ∧
        (slowAndPromptPlan.pool []).ReachesBy (.cancelling (· = some 0)) pool ∧ pool.IsOver ∧
        (slowAndPromptPlan.pool []).ReachesBy (.cancelling fun _ => False) calm ∧ calm.IsOver ∧
        pool.settled.map Prod.fst = [0, 1] ∧ calm.settled.map Prod.fst = [1, 0] ∧
        (∃ result, slowAndPromptPlan.EndsWith { issued := 2 } pool 1 e result ∧
          slowAndPromptPlan.EndsWith { issued := 2 } calm 1 e result) ∧
        moment.allCancelled = true ∧ moment.Reaches last ∧
        (slowAndPromptPlan.report { issued := 2 } last).outcome = .packaged package ∧
        e.path ∈ package.cancelled ∧ ∀ f ∈ package.failures, f.path ≠ e.path := by
  have hplan : slowAndPromptPlan = ofDocument "notes" slowAndPrompt { issued := 2 } {} {} := rfl
  have hrun : (slowAndPromptPlan.pool []).ReachesBy (.cancelling (· = some 0)) _ :=
    Relation.ReflTransGen.refl
      |>.tail (.fill _)
      |>.tail (@Pool.StepBy.turn _ _ _ [] [_] _ _ rfl trivial)
      |>.tail (@Pool.StepBy.cancel _ _ _ (some 0) rfl)
      |>.tail (@Pool.StepBy.turn _ _ _ [_] [] _ _ rfl trivial)
      |>.tail (@Pool.StepBy.turn _ _ _ [] [] _ _ rfl trivial)
  have hcalm : (slowAndPromptPlan.pool []).ReachesBy (.cancelling fun _ => False) _ :=
    Relation.ReflTransGen.refl
      |>.tail (.fill _)
      |>.tail (@Pool.StepBy.turn _ _ _ [] [_] _ _ rfl trivial)
      |>.tail (@Pool.StepBy.turn _ _ _ [] [_] _ _ rfl trivial)
      |>.tail (@Pool.StepBy.turn _ _ _ [] [] _ _ rfl trivial)
  have hmoment : (slowAndPromptPlan.pool []).Reaches _ :=
    Relation.ReflTransGen.refl
      |>.tail (.fill _)
      |>.tail (@Pool.Step.turn _ _ [] [_] _ _ rfl)
      |>.tail (.cancel _ none)
  have hstay : ∀ q, (slowAndPromptPlan.pool []).Reaches q → q.Reaches q := fun _ _ => .refl
  have hlast :=
    hstay _ hmoment
      |>.tail (@Pool.Step.turn _ _ [] [_] _ _ rfl)
      |>.tail (@Pool.Step.turn _ _ [] [] _ _ rfl)
  obtain ⟨hone, hall⟩ := cancelling_reaches_target hplan
  have hstops := hall [] _ hmoment rfl
  obtain ⟨hlisted, hunfailed⟩ :=
    hstops.listed _ _ 1 _ hlast ⟨rfl, rfl, rfl⟩ rfl rfl (by decide)
  have hends := (hone [] 0 (by simp)).ends _ _ 1 _ hrun ⟨rfl, rfl, rfl⟩ hcalm ⟨rfl, rfl, rfl⟩
    (by decide) rfl
  exact ⟨hplan, _, _, _, _, _, _, rfl, hrun, ⟨rfl, rfl, rfl⟩, hcalm, ⟨rfl, rfl, rfl⟩, rfl, rfl,
    hends, rfl, hlast, rfl, hlisted, hunfailed⟩

/-- A document that lists one image twice. -/
def listedTwice : Document :=
  let image : Asset := ⟨.slot 0, "", some promptImage⟩
  { children := [.paragraph [image.image]]
    images := [image, image] }

/-- Its plan. -/
def listedTwicePlan : Plan where
  stem := "notes"
  children := listedTwice.children
  entries := [⟨.image, "images/a.png", promptImage, .slot 0⟩,
    ⟨.image, "images/a-1.png", promptImage, .slot 0⟩]
  settings := {}
  style := {}

/-- Cancelling the first of two entries that share a target does make a difference to the second
one: now it is its path that the target reads. -/
theorem target_differs_listedTwice :
    listedTwicePlan = ofDocument "notes" listedTwice { issued := 1 } {} {} ∧
      listedTwicePlan.entries.map Entry.target = [.slot 0, .slot 0] ∧
      ∃ pool calm : Pool ByteArray,
        (listedTwicePlan.pool [⟨0, some 0⟩]).ReachesBy (.cancelling (· = some 0)) pool ∧
        pool.IsOver ∧
        (listedTwicePlan.pool []).ReachesBy (.cancelling fun _ => False) calm ∧ calm.IsOver ∧
        (listedTwicePlan.harvest { issued := 1 } pool.settled).slots.read (.slot 0) =
          some "images/a-1.png" ∧
        (listedTwicePlan.harvest { issued := 1 } calm.settled).slots.read (.slot 0) =
          some "images/a.png" := by
  have hrun : (listedTwicePlan.pool [⟨0, some 0⟩]).ReachesBy (.cancelling (· = some 0)) _ :=
    Relation.ReflTransGen.refl
      |>.tail (.fill _)
      |>.tail (@Pool.StepBy.turn _ _ _ [] [_] _ _ rfl trivial)
      |>.tail (@Pool.StepBy.turn _ _ _ [] [] _ _ rfl trivial)
  have hcalm : (listedTwicePlan.pool []).ReachesBy (.cancelling fun _ => False) _ :=
    Relation.ReflTransGen.refl
      |>.tail (.fill _)
      |>.tail (@Pool.StepBy.turn _ _ _ [] [_] _ _ rfl trivial)
      |>.tail (@Pool.StepBy.turn _ _ _ [] [] _ _ rfl trivial)
  exact ⟨rfl, rfl, _, _, hrun, ⟨rfl, rfl, rfl⟩, hcalm, ⟨rfl, rfl, rfl⟩, by decide, by decide⟩

end Plan

end Archive

end DocExport
