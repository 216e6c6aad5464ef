import DocExport.Archive.Names

/-!
# A ledger of paths

Within one archive no path may be handed out twice.  The ledger keeps the paths that are taken.
A request for a path that is taken gets the first numbered one that is not, and the number is
remembered, because no smaller one will come free again.

* **Main results.** `Ledger.reserve` hands out a path, `firstFree_not_mem` says that a search
  that stopped early stopped at a free path, and `le_firstFree` that it never goes back.
-/

namespace DocExport.Archive

/-- The paths taken so far, and for each path asked for more than once the last number that was
tried with it. -/
structure Ledger where
  /-- The paths that are taken, the latest first. -/
  used : List String := []
  /-- The last numbers tried, the latest first. -/
  lastTried : List (String × Nat) := []
  deriving DecidableEq, Repr

/-- The first number from `k` on whose path is free.  Each of `tries` numbers may be passed
over; as many as there are taken paths always suffice, since different numbers give different
paths. -/
def firstFree (used : List String) (path : Nat → String) (k : Nat) : (tries : Nat) → Nat
  | 0 => k
  | tries + 1 => if path k ∈ used then firstFree used path (k + 1) tries else k

/-- The search never goes back. -/
theorem le_firstFree (used : List String) (path : Nat → String) (k tries : Nat) :
    k ≤ firstFree used path k tries := by
  induction tries generalizing k with
  | zero => exact Nat.le_refl _
  | succ n ih =>
    rw [firstFree]
    split
    · exact Nat.le_trans (Nat.le_succ _) (ih _)
    · exact Nat.le_refl _

/-- Every number passed over belongs to a path that is taken. -/
theorem mem_of_lt_firstFree {used : List String} {path : Nat → String} {k tries j : Nat}
    (hk : k ≤ j) (hj : j < firstFree used path k tries) : path j ∈ used := by
  induction tries generalizing k with
  | zero => exact absurd hj (by rw [firstFree]; omega)
  | succ n ih =>
    rw [firstFree] at hj
    split at hj
    · rename_i h
      rcases Nat.eq_or_lt_of_le hk with rfl | hlt
      · exact h
      · exact ih hlt hj
    · omega

/-- A search that stopped before its tries ran out stopped at a free path. -/
theorem firstFree_not_mem {used : List String} {path : Nat → String} {k tries : Nat}
    (h : firstFree used path k tries < k + tries) :
    path (firstFree used path k tries) ∉ used := by
  induction tries generalizing k with
  | zero => exact absurd h (by rw [firstFree]; omega)
  | succ n ih =>
    rw [firstFree] at h ⊢
    split
    · rename_i hmem
      rw [if_pos hmem] at h
      exact ih (by omega)
    · rename_i hmem
      exact hmem

namespace Ledger

/-- The number of paths that are taken. -/
def size (l : Ledger) : Nat := l.used.length

/-- Hand out a path for a name in a directory. -/
def reserve (l : Ledger) (dir name : String) : String × Ledger :=
  let name := safeName name
  let path := pathIn dir name
  if path ∈ l.used then
    let numbered := fun k => pathIn dir (numberedName name k)
    let k := firstFree l.used numbered ((l.lastTried.lookup path).getD 0 + 1) l.used.length
    (numbered k, { used := numbered k :: l.used, lastTried := (path, k) :: l.lastTried })
  else (path, { l with used := path :: l.used })

theorem size_reserve (l : Ledger) (dir name : String) :
    (l.reserve dir name).2.size = l.size + 1 := by
  unfold reserve size
  dsimp only
  split <;> rfl

end Ledger

end DocExport.Archive
