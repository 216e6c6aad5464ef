import DocExport.Json
import DocExport.Text.Decimal

/-!
# Decoding JSON values

A record may be written as an object or, with the values of its fields in order, as an array.
Fields may be missing if they have a default; members that are no field are passed over.

* **Main results.** `Json.fields?` finds the values of the fields of a record.
-/

namespace DocExport.Json

/-! ## Records -/

/-- The values of the named fields of a record.  An object may have them in any order and other
members besides, but none of them twice; an array has the values of the first fields in the
order of the names.  A field that is not there has no value. -/
def fields? (names : List String) : Json → Option (List (Option Json))
  | .object members => do
      let named ← members.mapM fun m => m.1.map fun name => (name, m.2)
      names.mapM fun name =>
        match named.filter (·.1 == name) with
        | [] => some none
        | [m] => some (some m.2)
        | _ => none
  | .array elements =>
      if elements.length ≤ names.length then some (names.mapIdx fun i _ => elements[i]?)
      else none
  | _ => none

/-- The text of a string. -/
def text? : Json → Option String
  | .string text => text
  | _ => none

/-- The elements of an array. -/
def elementsOf? : Json → Option (List Json)
  | .array elements => some elements
  | _ => none

/-- The members of an object, all of them strings. -/
def texts? : Json → Option (List (String × String))
  | .object members => members.mapM fun m => do return (← m.1, ← m.2.text?)
  | _ => none

/-- A natural number below the limit, written without sign, point and exponent. -/
def natBelow? (limit : Nat) : Json → Option Nat
  | .number n =>
      if n.negative || n.fractional then none
      else (Text.decimal? n.digits).filter (· < limit)
  | _ => none

/-- A field that may be missing. -/
def optional {α : Type} (default : α) (decode : Json → Option α) : Option Json → Option α
  | none => some default
  | some x => decode x

end DocExport.Json
