import DocExport.Target.Shelf
import Mathlib.Data.List.Induction
import Mathlib.Logic.Function.Basic

/-!
# Targets that share a slot

The targets of a history come from one another by copying.  The *origin* of a target is the place
of the one that it goes back to, which was made and not copied.  What a history does can be told
without any slots: an action gives a URL to an origin, and what a target reads is the first URL that
its origin has been given.

* **Main results.** `Shelf.readings_run` says that slots do just that, along every history.  From
  it `Shelf.settlesOnce` puts together what copying and resolving do: targets of one origin read
  the same, what has been read once is read for ever, and resolving a target succeeds once for all
  that share its origin.
-/

namespace DocExport.Shelf

/-! ## Origins -/

/-- The origins of the targets after one more action. -/
def originsAfter (origins : List Nat) : Action → List Nat
  | .addPending | .addKnown _ => origins ++ [origins.length]
  | .copy source => origins ++ origins[source]?.toList
  | .resolve .. => origins

/-- The origin of each target after a history. -/
def origins (history : List Action) : List Nat := history.foldl originsAfter []

/-- The URL that an action gives to an origin, refused or not: the one that a target is made with,
or the one that a target of this origin is to be resolved to. -/
def Action.given (a : Action) (origins : List Nat) (o : Nat) : Option String :=
  match a with
  | .addPending | .copy _ => none
  | .addKnown url => if o = origins.length then some url else none
  | .resolve place url => if origins[place]? = some o then some url else none

/-- The first URL that an origin is given. -/
def firstGiven (origins : List Nat) (o : Nat) : List Action → Option String
  | [] => none
  | a :: rest => (a.given origins o).or (firstGiven (originsAfter origins a) o rest)

/-- The first URL that an origin is given in a history. -/
def firstUrl (history : List Action) (o : Nat) : Option String := firstGiven [] o history

variable {history : List Action} {o : Nat}

theorem origins_concat (history : List Action) (a : Action) :
    origins (history ++ [a]) = originsAfter (origins history) a :=
  List.foldl_append

theorem firstGiven_append (start : List Nat) (o : Nat) (a b : List Action) :
    firstGiven start o (a ++ b) =
      (firstGiven start o a).or (firstGiven (a.foldl originsAfter start) o b) := by
  induction a generalizing start with
  | nil => rfl
  | cons act a ih =>
    rw [List.cons_append, firstGiven, ih, firstGiven, List.foldl_cons, Option.or_assoc]

theorem firstUrl_concat (history : List Action) (a : Action) (o : Nat) :
    firstUrl (history ++ [a]) o = (firstUrl history o).or (a.given (origins history) o) := by
  rw [firstUrl, firstGiven_append, firstGiven, firstGiven, Option.or_none]
  rfl

theorem isPrefix_originsAfter (origins : List Nat) (a : Action) :
    origins <+: originsAfter origins a := by
  cases a with
  | addPending => exact List.prefix_append _ _
  | addKnown url => exact List.prefix_append _ _
  | copy source => exact List.prefix_append _ _
  | resolve place url => exact List.prefix_refl _

theorem isPrefix_origins (history later : List Action) :
    origins history <+: origins (history ++ later) := by
  induction later using List.reverseRecOn with
  | nil => simp
  | append_singleton later a ih =>
    rw [← List.append_assoc, origins_concat]
    exact ih.trans (isPrefix_originsAfter _ a)

/-- Origins are places of targets. -/
theorem lt_length_of_mem_origins (h : o ∈ origins history) : o < (origins history).length := by
  induction history using List.reverseRecOn with
  | nil => exact absurd h List.not_mem_nil
  | append_singleton history a ih =>
    have hlength := (isPrefix_originsAfter (origins history) a).length_le
    rw [origins_concat] at h ⊢
    by_cases hold : o ∈ origins history
    · exact Nat.lt_of_lt_of_le (ih hold) hlength
    · cases a with
      | addPending | addKnown url =>
        rw [originsAfter, List.mem_append, List.mem_singleton] at h
        rw [originsAfter, h.resolve_left hold, List.length_append]
        exact Nat.lt_succ_self _
      | copy source =>
        rw [originsAfter, List.mem_append, Option.mem_toList] at h
        exact absurd (List.mem_of_getElem? (h.resolve_left hold)) hold
      | resolve place url => exact absurd h hold

/-- An origin that has not been made has not been given a URL. -/
theorem firstUrl_eq_none (h : (origins history).length ≤ o) : firstUrl history o = none := by
  induction history using List.reverseRecOn with
  | nil => rfl
  | append_singleton history a ih =>
    rw [origins_concat] at h
    have hbefore := Nat.le_trans (isPrefix_originsAfter (origins history) a).length_le h
    rw [firstUrl_concat, ih hbefore, Option.none_or]
    cases a with
    | addPending | copy source => rfl
    | addKnown url =>
      rw [originsAfter, List.length_append] at h
      exact if_neg (Nat.ne_of_gt h)
    | resolve place url =>
      refine if_neg fun hplace => ?_
      exact absurd (lt_length_of_mem_origins (List.mem_of_getElem? hplace)) (Nat.not_lt.2 hbefore)

/-! ## Slots follow the origins -/

/-- The targets of a shelf go back to their origins: targets of one origin are the same, those of
different origins name different slots, and what they read is the first URL of the origin. -/
structure Follows (history : List Action) (s : Shelf) (target : Nat → Target) : Prop where
  /-- Every target is that of its origin. -/
  targets : s.targets = (origins history).map target
  /-- Different origins have different slots. -/
  own : ∀ o ∈ origins history, ∀ o' ∈ origins history, ∀ id,
    target o = .slot id → target o' = .slot id → o = o'
  /-- The slots of the targets have been handed out. -/
  issued : ∀ o ∈ origins history, ∀ id, target o = .slot id → id < s.slots.issued
  /-- The other slots have not been filled. -/
  unfilled : ∀ id, s.slots.issued ≤ id → s.slots.read (.slot id) = none
  /-- The targets of an origin read its first URL. -/
  reads : ∀ o ∈ origins history, s.slots.read (target o) = firstUrl history o

namespace Follows

variable {s : Shelf} {target : Nat → Target}

/-- A target that is made becomes an origin of its own. -/
theorem add (h : Follows history s target) {a : Action} (made : Target) {slots : Slots}
    (horigins : originsAfter (origins history) a = origins history ++ [(origins history).length])
    (hgiven : ∀ o, a.given (origins history) o =
      if o = (origins history).length then slots.read made else none)
    (hread : ∀ t, slots.read t = s.slots.read t) (hissued : s.slots.issued ≤ slots.issued)
    (hmade : ∀ id, made = .slot id → s.slots.issued ≤ id ∧ id < slots.issued) :
    Follows (history ++ [a]) { slots, targets := s.targets ++ [made] }
      (Function.update target (origins history).length made) := by
  obtain ⟨htargets, hown, hold, hunfilled, hreads⟩ := h
  have hmem : ∀ o, o ∈ origins (history ++ [a]) ↔
      o ∈ origins history ∨ o = (origins history).length := by
    intro o
    rw [origins_concat, horigins, List.mem_append, List.mem_singleton]
  have hne : ∀ o ∈ origins history, o ≠ (origins history).length :=
    fun o ho => Nat.ne_of_lt (lt_length_of_mem_origins ho)
  have hkept : ∀ o ∈ origins history,
      Function.update target (origins history).length made o = target o :=
    fun o ho => Function.update_of_ne (hne o ho) _ _
  have hnew : Function.update target (origins history).length made (origins history).length =
      made := Function.update_self _ _ _
  -- an old target is known, or names a slot that was handed out before the new one
  have hapart : ∀ o ∈ origins history, ∀ id, target o = .slot id → made ≠ .slot id := by
    intro o ho id hid hsame
    exact absurd (hold o ho id hid) (Nat.not_lt.2 (hmade id hsame).1)
  constructor
  · rw [origins_concat, horigins, List.map_append, List.map_congr_left hkept, ← htargets,
      List.map_singleton, hnew]
  · intro o ho o' ho' id hid hid'
    rcases (hmem o).1 ho with ho | rfl <;> rcases (hmem o').1 ho' with ho' | rfl
    · rw [hkept o ho] at hid
      rw [hkept o' ho'] at hid'
      exact hown o ho o' ho' id hid hid'
    · rw [hkept o ho] at hid
      exact absurd (hnew.symm.trans hid') (hapart o ho id hid)
    · rw [hkept o' ho'] at hid'
      exact absurd (hnew.symm.trans hid) (hapart o' ho' id hid')
    · rfl
  · intro o ho id hid
    rcases (hmem o).1 ho with ho | rfl
    · rw [hkept o ho] at hid
      exact Nat.lt_of_lt_of_le (hold o ho id hid) hissued
    · exact (hmade id (hnew.symm.trans hid)).2
  · intro id hid
    rw [hread]
    exact hunfilled id (Nat.le_trans hissued hid)
  · intro o ho
    rw [firstUrl_concat, hgiven]
    rcases (hmem o).1 ho with ho | rfl
    · rw [hkept o ho, if_neg (hne o ho), Option.or_none, ← hreads o ho]
      exact hread _
    · rw [hnew, if_pos rfl, firstUrl_eq_none (Nat.le_refl _), Option.none_or]

/-- What makes no target and gives no URL that is the first one leaves the targets as they are. -/
theorem keep (h : Follows history s target) {a : Action}
    (horigins : ∀ o ∈ originsAfter (origins history) a, o ∈ origins history)
    (hgiven : ∀ o ∈ origins history, (firstUrl history o).or (a.given (origins history) o) =
      firstUrl history o) :
    Follows (history ++ [a])
      { s with targets := (originsAfter (origins history) a).map target } target := by
  have hmem : ∀ o ∈ origins (history ++ [a]), o ∈ origins history := by
    intro o ho
    rw [origins_concat] at ho
    exact horigins o ho
  constructor
  · rw [origins_concat]
  · exact fun o ho o' ho' => h.own o (hmem o ho) o' (hmem o' ho')
  · exact fun o ho => h.issued o (hmem o ho)
  · exact h.unfilled
  · intro o ho
    rw [firstUrl_concat, hgiven o (hmem o ho)]
    exact h.reads o (hmem o ho)

theorem getElem?_targets (h : Follows history s target) (place : Nat) :
    s.targets[place]? = (origins history)[place]?.map target := by
  rw [h.targets, List.getElem?_map]

/-- A target that is resolved gets its URL together with all others of its origin. -/
theorem resolve (h : Follows history s target) {place : Nat} {url : String} {slots : Slots}
    (hplace : (origins history)[place]? = some o)
    (hslots : s.slots.resolve (target o) url = .ok slots) :
    Follows (history ++ [.resolve place url]) { s with slots } target := by
  have ho : o ∈ origins history := List.mem_of_getElem? hplace
  have hpending := (Slots.resolve_eq_ok_iff _ _ _).1 ⟨slots, hslots⟩
  obtain ⟨id, hid⟩ : ∃ id, target o = .slot id := by
    cases hcase : target o with
    | known old => simp [hcase, Slots.read] at hpending
    | slot id => exact ⟨id, rfl⟩
  have hissued : slots.issued = s.slots.issued := Slots.issued_resolve hslots
  have horigins : origins (history ++ [.resolve place url]) = origins history :=
    origins_concat history _
  constructor
  · rw [horigins]
    exact h.targets
  · rw [horigins]
    exact h.own
  · rw [horigins, hissued]
    exact h.issued
  · intro k hk
    rw [hissued] at hk
    have hne : Target.slot k ≠ target o := by
      intro hsame
      exact absurd (h.issued o ho k hsame.symm) (Nat.not_lt.2 hk)
    rw [Slots.read_resolve hslots, if_neg hne]
    exact h.unfilled k hk
  · rw [horigins]
    intro o' ho'
    rw [Slots.read_resolve hslots, firstUrl_concat, Action.given, hplace]
    by_cases hsame : o = o'
    · rw [← hsame, if_pos rfl, if_pos rfl, ← h.reads o ho, hpending, Option.none_or]
    · have hne : target o' ≠ target o := fun heq => hsame (h.own o ho o' ho' id hid (heq.trans hid))
      rw [if_neg hne, if_neg (by simpa using hsame), Option.or_none]
      exact h.reads o' ho'

/-- Every action keeps the targets to their origins. -/
theorem after (h : Follows history s target) (a : Action) :
    ∃ target, Follows (history ++ [a]) (s.after a) target := by
  cases a with
  | addPending =>
    have hpending := h.unfilled s.slots.issued (Nat.le_refl _)
    refine ⟨_, h.add (.slot s.slots.issued) rfl ?_ s.slots.read_fresh (Nat.le_succ _) ?_⟩
    · intro o
      exact (ite_self none).symm.trans (congrArg (ite _ · none) hpending.symm)
    · intro id hid
      obtain rfl := Target.slot.inj hid
      exact ⟨Nat.le_refl _, Nat.lt_succ_self _⟩
  | addKnown url =>
    refine ⟨_, h.add (.known url) rfl (fun o => rfl) (fun t => rfl) (Nat.le_refl _) ?_⟩
    exact fun id hid => Target.noConfusion hid
  | copy source =>
    refine ⟨target, ?_⟩
    have hcopy : s.after (.copy source) =
        { s with targets := (originsAfter (origins history) (.copy source)).map target } := by
      simp only [Shelf.after, act, originsAfter, h.getElem?_targets, List.map_append, ← h.targets]
      cases (origins history)[source]? <;> simp
    rw [hcopy]
    refine h.keep (fun o ho => ?_) fun o ho => Option.or_none
    rw [originsAfter, List.mem_append, Option.mem_toList] at ho
    exact ho.elim id List.mem_of_getElem?
  | resolve place url =>
    refine ⟨target, ?_⟩
    have hleft : { s with targets :=
        (originsAfter (origins history) (.resolve place url)).map target } = s := by
      rw [originsAfter, ← h.targets]
    cases hplace : (origins history)[place]? with
    | none =>
      have hafter : s.after (.resolve place url) = s := by
        simp [Shelf.after, act, h.getElem?_targets, hplace]
      have hkeep := h.keep (a := .resolve place url) (fun _ ho => ho) fun o _ => by
        simp [Action.given, hplace]
      rw [hafter]
      rwa [hleft] at hkeep
    | some o =>
      cases hslots : s.slots.resolve (target o) url with
      | ok slots =>
        have hafter : s.after (.resolve place url) = { s with slots } := by
          simp [Shelf.after, act, h.getElem?_targets, hplace, hslots, Except.map]
        rw [hafter]
        exact h.resolve hplace hslots
      | error e =>
        have hafter : s.after (.resolve place url) = s := by
          simp [Shelf.after, act, h.getElem?_targets, hplace, hslots, Except.map]
        have hfirst : firstUrl history o = some e.url := by
          rw [← h.reads o (List.mem_of_getElem? hplace)]
          exact (Slots.resolve_eq_error_iff _ _ _ _).1 hslots
        have hkeep := h.keep (a := .resolve place url) (fun _ ho => ho) fun o' _ => by
          by_cases hsame : o = o'
          · rw [← hsame, hfirst, Option.some_or]
          · simp [Action.given, hplace, hsame]
        rw [hafter]
        rwa [hleft] at hkeep

end Follows

/-- Along every history, the targets keep to their origins. -/
theorem exists_follows (history : List Action) :
    ∃ target, Follows history (run {} history) target := by
  induction history using List.reverseRecOn with
  | nil =>
    refine ⟨.slot, rfl, ?_, ?_, fun id _ => rfl, ?_⟩
    · exact fun o ho => absurd ho List.not_mem_nil
    · exact fun o ho => absurd ho List.not_mem_nil
    · exact fun o ho => absurd ho List.not_mem_nil
  | append_singleton history a ih =>
    obtain ⟨target, h⟩ := ih
    rw [run_append]
    exact h.after a

/-- **A target reads the first URL that its origin was given.** -/
theorem readings_run (history : List Action) :
    (run {} history).readings = (origins history).map (firstUrl history) := by
  obtain ⟨target, h⟩ := exists_follows history
  rw [readings, h.targets, List.map_map]
  exact List.map_congr_left h.reads

/-- A copy of a copy is resolved once, for the target that it goes back to as well. -/
example :
    (run {} [.addPending, .copy 0, .copy 1, .resolve 2 "a", .resolve 0 "b"]).readings =
      [some "a", some "a", some "a"] := by
  decide

/-! ## What copying and resolving do -/

/-- What holds of the targets after a history, and as it goes on. -/
structure SettlesOnce (history : List Action) : Prop where
  /-- Targets of one origin read the same. -/
  shared : ∀ i j : Nat, (origins history)[i]? = (origins history)[j]? →
    (run {} history).readings[i]? = (run {} history).readings[j]?
  /-- What a target reads once it reads for ever. -/
  stays : ∀ later (i : Nat) url, (run {} history).readings[i]? = some (some url) →
    (run {} (history ++ later)).readings[i]? = some (some url)
  /-- Exactly the targets that are pending can be resolved. -/
  succeeds : ∀ place url, place < (origins history).length →
    ((∃ s, (run {} history).act (.resolve place url) = .ok s) ↔
      (run {} history).readings[place]? = some none)
  /-- That changes what all targets of the origin read, and no other. -/
  changes : ∀ place url s, place < (origins history).length →
    (run {} history).act (.resolve place url) = .ok s → ∀ i : Nat,
      s.readings[i]? = if (origins history)[i]? = (origins history)[place]? then some (some url)
        else (run {} history).readings[i]?
  /-- A refusal leaves everything as it was, and names the URL that was given first. -/
  refuses : ∀ place url e, (run {} history).act (.resolve place url) = .error e →
    (run {} history).after (.resolve place url) = run {} history ∧
      ∃ o, (origins history)[place]? = some o ∧ firstUrl history o = some e.url

theorem getElem?_readings (history : List Action) (i : Nat) :
    (run {} history).readings[i]? = (origins history)[i]?.map (firstUrl history) := by
  rw [readings_run, List.getElem?_map]

section Resolving

variable {place : Nat} {url : String}

theorem exists_act_resolve (hplace : (origins history)[place]? = some o) (url : String) :
    ∃ t, (run {} history).slots.read t = firstUrl history o ∧
      (run {} history).act (.resolve place url) =
        ((run {} history).slots.resolve t url).map fun slots => { run {} history with slots } := by
  obtain ⟨target, h⟩ := exists_follows history
  refine ⟨target o, h.reads o (List.mem_of_getElem? hplace), ?_⟩
  simp only [act, h.getElem?_targets, hplace, Option.map_some]

theorem act_resolve_eq_ok_iff (hplace : (origins history)[place]? = some o) :
    (∃ s, (run {} history).act (.resolve place url) = .ok s) ↔ firstUrl history o = none := by
  obtain ⟨t, hread, hact⟩ := exists_act_resolve hplace url
  rw [hact, ← hread, ← Slots.resolve_eq_ok_iff _ _ url]
  cases (run {} history).slots.resolve t url <;> simp [Except.map]

theorem act_resolve_eq_error_iff (hplace : (origins history)[place]? = some o) {e : Settled} :
    (run {} history).act (.resolve place url) = .error e ↔ firstUrl history o = some e.url := by
  obtain ⟨t, hread, hact⟩ := exists_act_resolve hplace url
  rw [hact, ← hread, ← Slots.resolve_eq_error_iff _ _ url]
  cases (run {} history).slots.resolve t url <;> simp [Except.map]

theorem act_resolve_of_eq_none (hplace : (origins history)[place]? = none) (url : String) :
    (run {} history).act (.resolve place url) = .ok (run {} history) := by
  obtain ⟨target, h⟩ := exists_follows history
  simp only [act, h.getElem?_targets, hplace, Option.map_none]

end Resolving

/-- **Targets change once and together.**  Whatever targets were made, copied and resolved: those
that go back to one another by copying read the same, what has been read once stays, and a target
can be resolved as long as it is pending, which changes what the targets of its origin read and no
other; after that it refuses, leaves all targets as they were and names the URL that was there
first. -/
theorem settlesOnce (history : List Action) : SettlesOnce history := by
  constructor
  · intro i j hij
    rw [getElem?_readings, getElem?_readings, hij]
  · intro later i url hurl
    rw [getElem?_readings, Option.map_eq_some_iff] at hurl
    obtain ⟨o, ho, hfirst⟩ := hurl
    obtain ⟨hi, rfl⟩ := List.getElem?_eq_some_iff.1 ho
    rw [getElem?_readings, List.prefix_iff_getElem?.1 (isPrefix_origins history later) i hi,
      Option.map_some, firstUrl, firstGiven_append, ← firstUrl, hfirst, Option.some_or]
  · intro place url hplace
    have ho := List.getElem?_eq_getElem hplace
    rw [act_resolve_eq_ok_iff ho, getElem?_readings, ho, Option.map_some, Option.some.injEq]
  · intro place url s hplace hs i
    have ho := List.getElem?_eq_getElem hplace
    have hpending := (act_resolve_eq_ok_iff ho).1 ⟨s, hs⟩
    have hafter : run {} (history ++ [.resolve place url]) = s := by
      rw [run_append]
      show (run {} history).after (.resolve place url) = s
      rw [after, hs]
    have horigins : origins (history ++ [.resolve place url]) = origins history :=
      origins_concat history _
    rw [← hafter, getElem?_readings, getElem?_readings, horigins, ho]
    cases (origins history)[i]? with
    | none => simp
    | some o =>
      rw [Option.map_some, Option.map_some, firstUrl_concat, Action.given, ho]
      by_cases hsame : o = (origins history)[place]
      · rw [hsame, if_pos rfl, if_pos rfl, hpending, Option.none_or]
      · rw [if_neg (by simpa using Ne.symm hsame), if_neg (by simpa using hsame), Option.or_none]
  · intro place url e he
    refine ⟨by rw [after, he], ?_⟩
    cases hplace : (origins history)[place]? with
    | none => exact absurd ((act_resolve_of_eq_none hplace url).symm.trans he) (by simp)
    | some o => exact ⟨o, rfl, (act_resolve_eq_error_iff hplace).1 he⟩

end DocExport.Shelf
