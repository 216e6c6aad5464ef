/-!
# Link and image targets

The target of a link or an image is either a URL known from the start or a *slot* that is
filled in later, once the media behind it has found its place.  Every copy of a target names
the same slot, so filling the slot changes what all copies read, and nothing else.  A slot is
filled at most once.

* **Main results.** `Slots.read_resolve` (a successful resolution changes exactly the targets
  that name the slot), `Slots.resolve_eq_ok_iff` (it succeeds exactly on a pending target)
  and `Slots.read_fresh` (a fresh slot is pending and disturbs nothing).
-/

namespace DocExport

/-! ## Targets and slots -/

/-- Where a link or an image points. -/
inductive Target where
  /-- A URL known when the target was made. -/
  | known (url : String)
  /-- The slot with this number, to be filled later. -/
  | slot (id : Nat)
  deriving DecidableEq, Repr

/-- The slots handed out so far, and the URLs some of them were filled with. -/
structure Slots where
  /-- How many slots were handed out; the next one gets this number. -/
  issued : Nat := 0
  /-- The filled slots with their URLs, the latest first. -/
  filled : List (Nat × String) := []
  deriving DecidableEq, Repr

/-- The refusal to resolve a target that already has a URL. -/
structure Settled where
  /-- The URL that was there first. -/
  url : String
  deriving DecidableEq, Repr

/-- What is reported when a target is resolved a second time. -/
def Settled.message (e : Settled) : String :=
  "destination already resolved to " ++ e.url

namespace Slots

/-- What a target reads: its URL, or nothing while it is pending. -/
def read (s : Slots) : Target → Option String
  | .known url => some url
  | .slot id => s.filled.lookup id

/-- Hand out a slot that was never used before. -/
def fresh (s : Slots) : Target × Slots :=
  (.slot s.issued, { s with issued := s.issued + 1 })

/-- Give a pending target its URL; a target that has one already keeps it. -/
def resolve (s : Slots) (t : Target) (url : String) : Except Settled Slots :=
  match t with
  | .known old => .error ⟨old⟩
  | .slot id =>
      match s.filled.lookup id with
      | some old => .error ⟨old⟩
      | none => .ok { s with filled := (id, url) :: s.filled }

/-- Two targets are alike when they read the same; two pending targets are alike as well. -/
def alike (s : Slots) (a b : Target) : Bool := s.read a == s.read b

/-! ## Laws of the slots -/

/-- Resolving succeeds exactly on a pending target. -/
theorem resolve_eq_ok_iff (s : Slots) (t : Target) (url : String) :
    (∃ s', s.resolve t url = .ok s') ↔ s.read t = none := by
  cases t with
  | known old => simp [resolve, read]
  | slot id => cases h : s.filled.lookup id <;> simp [resolve, read, h]

theorem resolve_eq_error_iff (s : Slots) (t : Target) (url : String) (e : Settled) :
    s.resolve t url = .error e ↔ s.read t = some e.url := by
  cases t with
  | known old => cases e; simp [resolve, read]
  | slot id => cases e; cases h : s.filled.lookup id <;> simp [resolve, read, h]

/-- After a successful resolution the targets equal to the resolved one read the new URL, and
every other target reads what it did. -/
theorem read_resolve {s s' : Slots} {t : Target} {url : String}
    (h : s.resolve t url = .ok s') (u : Target) :
    s'.read u = if u = t then some url else s.read u := by
  cases t with
  | known old => simp [resolve] at h
  | slot id =>
    cases hl : s.filled.lookup id with
    | some old => simp [resolve, hl] at h
    | none =>
      simp only [resolve, hl, Except.ok.injEq] at h
      subst h
      cases u with
      | known url' => simp [read]
      | slot j =>
        by_cases hj : j = id
        · simp [read, hj]
        · simp [read, hj, List.lookup_cons, beq_eq_false_iff_ne.2 hj]

/-- Resolving a target hands out no slot. -/
theorem issued_resolve {s s' : Slots} {t : Target} {url : String}
    (h : s.resolve t url = .ok s') : s'.issued = s.issued := by
  cases t with
  | known old => exact absurd h (by simp [resolve])
  | slot id =>
    cases hfilled : s.filled.lookup id with
    | some old => exact absurd h (by simp [resolve, hfilled])
    | none =>
      simp only [resolve, hfilled, Except.ok.injEq] at h
      rw [← h]

/-- Handing out a slot changes what no target reads. -/
theorem read_fresh (s : Slots) (u : Target) : s.fresh.2.read u = s.read u := by
  cases u <;> rfl

end Slots

end DocExport
