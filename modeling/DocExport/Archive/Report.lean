import DocExport.Archive.Package
import DocExport.Archive.Pool

/-!
# Running an export

A planned export is run by fetching its media in a pool and packaging what they bring.  The
report says how it ended and what was seen on the way: a step of progress for every fetch that
was settled, and a last one for the document once it is packaged.

* **Main results.** `Plan.report` is what a pool at its end makes of a plan, and `Plan.run` runs a
  plan.
-/

namespace DocExport.Archive

/-- How an export ended. -/
inductive Outcome where
  /-- It was packaged. -/
  | packaged (package : Package)
  /-- Its archive could not be put together. -/
  | refused (reason : RepeatedName)
  /-- It never ends: the fetches under way all wait for a cancellation that does not come. -/
  | stalled

/-- How many steps have been reported in the end. -/
def Outcome.steps (settled : Nat) : Outcome → Nat
  | .packaged _ => settled + 1
  | .refused _ | .stalled => settled

/-- What can be seen of an export. -/
structure Report where
  outcome : Outcome
  /-- The pool at the end of the run, with all cancellations made. -/
  pool : Pool ByteArray
  /-- The number of steps in all. -/
  total : Nat

/-- The steps that were reported: how many were completed, out of how many. -/
def Report.progress (r : Report) : List (Nat × Nat) :=
  (List.range (r.outcome.steps r.pool.settled.length)).map fun k => (k + 1, r.total)

namespace Plan

/-- The pool of a plan before its first turn. -/
def pool (p : Plan) (wishes : List CancelWish) : Pool ByteArray :=
  Pool.start p.settings.slotCount wishes (p.entries.map fun e => e.media.source)

/-- What becomes of a plan when its pool has come to an end. -/
def report (p : Plan) (slots : Slots) (pool : Pool ByteArray) : Report :=
  if pool.isStalled then ⟨.stalled, pool, p.total⟩
  else
    match p.package (p.harvest slots pool.settled) with
    | .error reason => ⟨.refused reason, pool, p.total⟩
    | .ok package => ⟨.packaged package, pool.fulfil p.total, p.total⟩

/-- Run a plan to its end. -/
def run (p : Plan) (slots : Slots) (wishes : List CancelWish) : Report :=
  p.report slots (p.pool wishes).run

end Plan

end DocExport.Archive
