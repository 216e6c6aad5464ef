import DocExport.Target

/-!
# A shelf of targets

Targets are made, copied and resolved over time.  A *shelf* is a growing row of targets
together with their slots, and an *action* is one thing that can be done to it: put a pending
or a known target at the end, copy one that is there, or resolve one.  Histories of targets
are lists of actions, and what a shelf shows after each of them is what its targets read.

* **Main results.** `Shelf.readings` reads a whole shelf, and `Shelf.run` plays a history.
-/

namespace DocExport

/-- A row of targets and the slots they may name. -/
structure Shelf where
  /-- The slots of all the targets on the shelf. -/
  slots : Slots := {}
  /-- The targets, in the order in which they were put there. -/
  targets : List Target := []
  deriving Repr

/-- One thing done to a shelf. -/
inductive Shelf.Action where
  /-- Put a new pending target at the end. -/
  | addPending
  /-- Put a target with a known URL at the end. -/
  | addKnown (url : String)
  /-- Put a copy of the target at this place at the end. -/
  | copy (source : Nat)
  /-- Resolve the target at this place. -/
  | resolve (place : Nat) (url : String)
  deriving DecidableEq, Repr

namespace Shelf

/-- Do one thing to a shelf.  Copying or resolving a place the shelf does not have does
nothing, and a target that is already resolved refuses and leaves the shelf as it was. -/
def act (s : Shelf) : Action → Except Settled Shelf
  | .addPending =>
      let (target, slots) := s.slots.fresh
      .ok { slots, targets := s.targets ++ [target] }
  | .addKnown url => .ok { s with targets := s.targets ++ [.known url] }
  | .copy source =>
      match s.targets[source]? with
      | some target => .ok { s with targets := s.targets ++ [target] }
      | none => .ok s
  | .resolve place url =>
      match s.targets[place]? with
      | some target => (s.slots.resolve target url).map fun slots => { s with slots }
      | none => .ok s

/-- The shelf after an action, refused or not. -/
def after (s : Shelf) (a : Action) : Shelf :=
  match s.act a with
  | .ok t => t
  | .error _ => s

/-- The shelf after a whole history of actions. -/
def run (s : Shelf) (history : List Action) : Shelf := history.foldl after s

/-- What the targets of a shelf read, in order. -/
def readings (s : Shelf) : List (Option String) := s.targets.map s.slots.read

theorem run_append (s : Shelf) (a b : List Action) : s.run (a ++ b) = (s.run a).run b :=
  List.foldl_append

end Shelf

end DocExport
