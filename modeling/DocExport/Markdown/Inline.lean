import DocExport.Adjacent
import DocExport.Media.Fetch
import DocExport.Target

/-!
# Inline content

What stands inside a paragraph, a heading or a table cell: text, code and math as leaves,
marks and links around other inlines, and images.  Links and images point to a target that may
still be pending, so whether two links point to the same place is asked of the slots.

Neighbouring inlines of one kind say the same thing as one inline with their contents joined.
*Coalescing* joins them, and does so again inside each inline that was joined.

* **Main results.** `Inline.coalesce` joins neighbours that belong together, down to the nesting
  depth of what it is given, below which there is nothing left to join.
-/

namespace DocExport

/-- A piece of inline content. -/
inductive Inline where
  /-- Plain text. -/
  | text (value : String)
  /-- Code, shown as it stands. -/
  | code (value : String)
  /-- A formula. -/
  | math (value : String)
  /-- Emphasised content. -/
  | emphasis (children : List Inline)
  /-- Strongly emphasised content. -/
  | strong (children : List Inline)
  /-- Content that is struck out. -/
  | delete (children : List Inline)
  /-- A link around its content; `media` is present when the target is a file that still has
  to be fetched. -/
  | link (target : Target) (title : Option String) (media : Option Media)
      (children : List Inline)
  /-- An image; `media` is present when its bytes still have to be fetched. -/
  | image (target : Target) (alt : String) (title : Option String) (media : Option Media)

namespace Inline

/-! ## Likeness -/

/-- Media that are both absent or alike. -/
def mediaAlike : Option Media → Option Media → Bool
  | none, none => true
  | some a, some b => a.alike b
  | _, _ => false

mutual

/-- Two inlines are alike when they have the same shape and text, their targets read the same
and their media have the same names. -/
def alike (slots : Slots) : Inline → Inline → Bool
  | .text a, .text b => a == b
  | .code a, .code b => a == b
  | .math a, .math b => a == b
  | .emphasis xs, .emphasis ys => allAlike slots xs ys
  | .strong xs, .strong ys => allAlike slots xs ys
  | .delete xs, .delete ys => allAlike slots xs ys
  | .link a t d xs, .link b u e ys =>
      slots.alike a b && t == u && mediaAlike d e && allAlike slots xs ys
  | .image a x t d, .image b y u e => slots.alike a b && x == y && t == u && mediaAlike d e
  | _, _ => false

/-- Two lists of inlines that are alike place by place. -/
def allAlike (slots : Slots) : List Inline → List Inline → Bool
  | [], [] => true
  | x :: xs, y :: ys => alike slots x y && allAlike slots xs ys
  | _, _ => false

end

/-! ## Joining neighbours -/

/-- The kinds of inlines that can be joined with a neighbour of the same kind. -/
inductive JoinKind where
  | text
  | code
  | emphasis
  | strong
  | delete
  /-- A link with what its target reads. -/
  | link (url : Option String)
  deriving DecidableEq, Repr

/-- The kind under which an inline can be joined; formulas and images never are. -/
def joinKind? (slots : Slots) : Inline → Option JoinKind
  | .text _ => some .text
  | .code _ => some .code
  | .math _ => none
  | .emphasis _ => some .emphasis
  | .strong _ => some .strong
  | .delete _ => some .delete
  | .link target _ _ _ => some (.link (slots.read target))
  | .image .. => none

/-- Neighbours belong together when they can be joined under one kind. -/
def belongTogether (slots : Slots) (a b : Inline) : Bool :=
  (a.joinKind? slots).isSome && a.joinKind? slots == b.joinKind? slots

/-- Two inlines of one kind as one, the contents of the second after those of the first.
Joined links keep the target, title and media of the first. -/
def join? : Inline → Inline → Option Inline
  | .text a, .text b => some (.text (a ++ b))
  | .code a, .code b => some (.code (a ++ b))
  | .emphasis xs, .emphasis ys => some (.emphasis (xs ++ ys))
  | .strong xs, .strong ys => some (.strong (xs ++ ys))
  | .delete xs, .delete ys => some (.delete (xs ++ ys))
  | .link target title media xs, .link _ _ _ ys => some (.link target title media (xs ++ ys))
  | _, _ => none

/-- What is around the children of an inline stays, and the children are changed. -/
def mapChildren (f : List Inline → List Inline) : Inline → Inline
  | .emphasis xs => .emphasis (f xs)
  | .strong xs => .strong (f xs)
  | .delete xs => .delete (f xs)
  | .link target title media xs => .link target title media (f xs)
  | leaf => leaf

/-! ## Nesting depth -/

mutual

/-- How deeply inlines are nested inside one another; a leaf has depth one. -/
def depth : Inline → Nat
  | .emphasis xs | .strong xs | .delete xs => depthAll xs + 1
  | .link _ _ _ xs => depthAll xs + 1
  | _ => 1

/-- The greatest depth in a list of inlines. -/
def depthAll : List Inline → Nat
  | [] => 0
  | x :: xs => max (depth x) (depthAll xs)

end

/-! ## Coalescing -/

/-- Join all neighbours that belong together, and again inside every inline that came from
joining, down to the given depth. -/
def coalesceWithin (slots : Slots) : Nat → List Inline → List Inline
  | 0, xs => xs
  | levels + 1, xs =>
      Adjacent.coalesce (belongTogether slots)
        (fun first rest =>
          (rest.foldl (fun joined next => (join? joined next).getD joined) first).mapChildren
            (coalesceWithin slots levels))
        xs

/-- Join all neighbours that belong together, at every depth at which joining brings new
neighbours together. -/
def coalesce (slots : Slots) (xs : List Inline) : List Inline :=
  coalesceWithin slots (depthAll xs) xs

end Inline

end DocExport
