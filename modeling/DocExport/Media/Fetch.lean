/-!
# Fetching media

The bytes of an image or a file are not part of a document: they are asked for when the
document is exported, and the answer may take its time.  A *fetch* is that conversation seen
from the export's side.  It either answers, or pauses and can be taken up again at any time,
or waits for the moment it is cancelled.  Whoever takes a paused fetch up again tells it
whether it has been cancelled in the meantime.

* **Main results.** `Fetch.advance` runs a fetch until it next gives up its turn, and
  `Fetch.advance_weight` says that every turn leaves less to do, so that each fetch ends after
  finitely many turns.
-/

namespace DocExport

/-- Why a fetch did not produce what it was asked for. -/
inductive FetchFault where
  /-- The fetch was told to stop. -/
  | cancelled
  /-- There is nothing to fetch. -/
  | unavailable (reason : String)
  /-- Fetching was tried and went wrong. -/
  | failed (reason : String)
  deriving DecidableEq, Repr

/-- The wording of a fault. -/
def FetchFault.message : FetchFault → String
  | .cancelled => "fetch cancelled"
  | .unavailable reason => "media unavailable: " ++ reason
  | .failed reason => "fetch failed: " ++ reason

/-- A fetch in progress. -/
inductive Fetch (α : Type) where
  /-- The fetch is over. -/
  | answer (result : Except FetchFault α)
  /-- The fetch gives up its turn; `resume` goes on with it, told whether it is cancelled. -/
  | pause (resume : Bool → Fetch α)
  /-- The fetch goes on with `next` as soon as it is cancelled, and not before. -/
  | awaitCancel (next : Fetch α)

namespace Fetch

variable {α β : Type}

/-- Rework the answer of a fetch, leaving its course as it is. -/
def mapAnswer (f : Except FetchFault α → Except FetchFault β) : Fetch α → Fetch β
  | .answer result => .answer (f result)
  | .pause resume => .pause fun cancelled => (resume cancelled).mapAnswer f
  | .awaitCancel next => .awaitCancel (next.mapAnswer f)

/-! ## Turns -/

/-- How a fetch can give up its turn. -/
inductive Turn (α : Type) where
  /-- It is over. -/
  | done (result : Except FetchFault α)
  /-- It can be taken up again at once. -/
  | paused (resume : Bool → Fetch α)
  /-- It can be taken up again once it is cancelled. -/
  | waiting (next : Fetch α)

/-- Run a fetch until it gives up its turn.  A fetch that is cancelled already does not wait
for its cancellation. -/
def advance (cancelled : Bool) : Fetch α → Turn α
  | .answer result => .done result
  | .pause resume => .paused resume
  | .awaitCancel next => if cancelled then next.advance cancelled else .waiting next

/-- The most turns and waits a fetch can still take, counting its answer. -/
def weight : Fetch α → Nat
  | .answer _ => 1
  | .pause resume => 1 + max (resume false).weight (resume true).weight
  | .awaitCancel next => 1 + next.weight

/-- What a turn leaves to do. -/
def Turn.weight : Turn α → Nat
  | .done _ => 0
  | .paused resume => max (resume false).weight (resume true).weight
  | .waiting next => next.weight

/-- Every turn leaves less to do than there was. -/
theorem advance_weight (cancelled : Bool) (f : Fetch α) :
    (f.advance cancelled).weight < f.weight := by
  induction f with
  | answer result => exact Nat.zero_lt_one
  | pause resume => simp [advance, Turn.weight, weight]
  | awaitCancel next ih =>
    cases cancelled
    · simp [advance, Turn.weight, weight]
    · simp only [advance, if_pos, weight]
      omega

end Fetch

/-! ## Media -/

/-- The media behind an image or a file: what the document calls it, what its host calls it,
and how to ask for its bytes. -/
structure Media where
  /-- The file name the document suggests. -/
  name : String
  /-- The host's own name for the media. -/
  token : String
  /-- The fetch that yields the bytes. -/
  source : Fetch ByteArray

/-- Two media are alike when they agree in name and token; fetches cannot be compared. -/
def Media.alike (a b : Media) : Bool := a.name == b.name && a.token == b.token

end DocExport
