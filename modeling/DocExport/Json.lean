/-!
# JSON values

A reader for JSON texts.  It keeps what a decoder may want to know: the order of the members of
an object, members that occur more than once, and how a number was written.  A string may
contain half of a surrogate pair as an escape; such a string is read, but has no text.

* **Main results.** `Json.read` reads a whole text that consists of a single value.
-/

namespace DocExport

/-- A number as it was written. -/
structure NumberText where
  /-- Whether it has a minus sign. -/
  negative : Bool
  /-- The digits before the point. -/
  digits : List Char
  /-- Whether it has a point or an exponent. -/
  fractional : Bool
  deriving DecidableEq, Repr

/-- A JSON value. -/
inductive Json where
  | null
  | bool (b : Bool)
  | number (n : NumberText)
  /-- A string; it has no text if it contains half of a surrogate pair. -/
  | string (text : Option String)
  | array (elements : List Json)
  | object (members : List (Option String × Json))

namespace Json

/-! ## Strings -/

/-- A piece of a string: a character, or a code unit that was written as an escape. -/
inductive Piece where
  | char (c : Char)
  | unit (n : Nat)
  deriving DecidableEq, Repr

/-- The value of a hexadecimal digit. -/
def hexDigit? (c : Char) : Option Nat :=
  if '0' ≤ c ∧ c ≤ '9' then some (c.toNat - 48)
  else if 'a' ≤ c ∧ c ≤ 'f' then some (c.toNat - 87)
  else if 'A' ≤ c ∧ c ≤ 'F' then some (c.toNat - 55)
  else none

/-- The value of four hexadecimal digits. -/
def hexFour? (a b c d : Char) : Option Nat := do
  let a ← hexDigit? a
  let b ← hexDigit? b
  let c ← hexDigit? c
  let d ← hexDigit? d
  return ((a * 16 + b) * 16 + c) * 16 + d

/-- The character that a backslash and a letter stand for. -/
def escaped? : Char → Option Char
  | '"' => some '"'
  | '\\' => some '\\'
  | '/' => some '/'
  | 'b' => some '\x08'
  | 'f' => some '\x0c'
  | 'n' => some '\n'
  | 'r' => some '\r'
  | 't' => some '\t'
  | _ => none

/-- The pieces of a string up to its closing quote, and what follows it.  The opening quote has
been read. -/
def pieces? : List Char → Option (List Piece × List Char)
  | [] => none
  | '"' :: rest => some ([], rest)
  | '\\' :: 'u' :: a :: b :: c :: d :: rest => do
      let n ← hexFour? a b c d
      let (ps, rest) ← pieces? rest
      return (.unit n :: ps, rest)
  | '\\' :: e :: rest => do
      let c ← escaped? e
      let (ps, rest) ← pieces? rest
      return (.char c :: ps, rest)
  | c :: rest => do
      guard (c ≠ '\\' ∧ 0x20 ≤ c.toNat)
      let (ps, rest) ← pieces? rest
      return (.char c :: ps, rest)

/-- Whether a code unit is the first half of a surrogate pair. -/
def isHigh (n : Nat) : Bool := 0xD800 ≤ n && n ≤ 0xDBFF

/-- Whether a code unit is the second half of a surrogate pair. -/
def isLow (n : Nat) : Bool := 0xDC00 ≤ n && n ≤ 0xDFFF

/-- The text of a string, if its surrogates come in pairs. -/
def textOf? : List Piece → Option (List Char)
  | [] => some []
  | .char c :: ps => (textOf? ps).map (c :: ·)
  | .unit n :: .unit k :: ps =>
      if isHigh n then
        if isLow k then
          (textOf? ps).map (Char.ofNat (0x10000 + (n - 0xD800) * 0x400 + (k - 0xDC00)) :: ·)
        else none
      else if isLow n then none
      else (textOf? (.unit k :: ps)).map (Char.ofNat n :: ·)
  | .unit n :: ps => if isHigh n || isLow n then none else (textOf? ps).map (Char.ofNat n :: ·)

/-- A string and what follows it; the opening quote has been read. -/
def string? (cs : List Char) : Option (Option String × List Char) := do
  let (ps, rest) ← pieces? cs
  return ((textOf? ps).map String.ofList, rest)

/-! ## Numbers -/

/-- At least one digit, and what follows the digits. -/
def digits? (cs : List Char) : Option (List Char × List Char) :=
  let ds := cs.takeWhile Char.isDigit
  if ds.isEmpty then none else some (ds, cs.dropWhile Char.isDigit)

/-- The digits before the point: a single zero, or digits that do not begin with one. -/
def whole? : List Char → Option (List Char × List Char)
  | '0' :: rest => some (['0'], rest)
  | cs => digits? cs

/-- What follows the fraction, if there is one, and whether there is. -/
def fraction? : List Char → Option (Bool × List Char)
  | '.' :: rest => (digits? rest).map fun r => (true, r.2)
  | cs => some (false, cs)

/-- What follows the exponent, if there is one, and whether there is. -/
def exponent? : List Char → Option (Bool × List Char)
  | c :: rest =>
      if c = 'e' ∨ c = 'E' then
        let unsigned :=
          match rest with
          | '+' :: others => others
          | '-' :: others => others
          | others => others
        (digits? unsigned).map fun r => (true, r.2)
      else some (false, c :: rest)
  | [] => some (false, [])

/-- A number without its sign. -/
def unsigned? (negative : Bool) (cs : List Char) : Option (Json × List Char) := do
  let (ds, rest) ← whole? cs
  let (point, rest) ← fraction? rest
  let (power, rest) ← exponent? rest
  return (.number ⟨negative, ds, point || power⟩, rest)

/-- A number. -/
def number? : List Char → Option (Json × List Char)
  | '-' :: rest => unsigned? true rest
  | cs => unsigned? false cs

/-! ## Values -/

/-- Whether a character is white space between the parts of a value. -/
def isSpace (c : Char) : Bool := c == ' ' || c == '\t' || c == '\n' || c == '\r'

/-- What follows the white space at the start of a text. -/
def skip (cs : List Char) : List Char := cs.dropWhile isSpace

/-- A value that is no array, object or string: one of three words, or a number. -/
def scalar? (cs : List Char) : Option (Json × List Char) :=
  match cs with
  | 'n' :: 'u' :: 'l' :: 'l' :: rest => some (.null, rest)
  | 't' :: 'r' :: 'u' :: 'e' :: rest => some (.bool true, rest)
  | 'f' :: 'a' :: 'l' :: 's' :: 'e' :: rest => some (.bool false, rest)
  | _ => number? cs

mutual

/-- A value and what follows it.  The bound limits the steps from one value to the next, each of
which reads at least one character of every two. -/
def value? : (bound : Nat) → List Char → Option (Json × List Char)
  | 0, _ => none
  | n + 1, cs =>
      match skip cs with
      | '"' :: rest => (string? rest).map fun r => (.string r.1, r.2)
      | '[' :: rest =>
          match skip rest with
          | ']' :: rest => some (.array [], rest)
          | _ => (elements? n rest).map fun r => (.array r.1, r.2)
      | '\x7b' :: rest =>
          match skip rest with
          | '\x7d' :: rest => some (.object [], rest)
          | _ => (members? n rest).map fun r => (.object r.1, r.2)
      | cs => scalar? cs

/-- The elements of an array up to its closing bracket, and what follows it. -/
def elements? : (bound : Nat) → List Char → Option (List Json × List Char)
  | 0, _ => none
  | n + 1, cs => do
      let (x, rest) ← value? n cs
      match skip rest with
      | ']' :: rest => return ([x], rest)
      | ',' :: rest => do
          let (xs, rest) ← elements? n rest
          return (x :: xs, rest)
      | _ => none

/-- The members of an object up to its closing brace, and what follows it. -/
def members? : (bound : Nat) → List Char → Option (List (Option String × Json) × List Char)
  | 0, _ => none
  | n + 1, cs =>
      match skip cs with
      | '"' :: rest => do
          let (name, rest) ← string? rest
          match skip rest with
          | ':' :: rest => do
              let (x, rest) ← value? n rest
              match skip rest with
              | '\x7d' :: rest => return ([(name, x)], rest)
              | ',' :: rest => do
                  let (ms, rest) ← members? n rest
                  return ((name, x) :: ms, rest)
              | _ => none
          | _ => none
      | _ => none

end

/-- Read a text that consists of a single value. -/
def read (s : String) : Option Json := do
  let cs := s.toList
  let (x, rest) ← value? (2 * cs.length + 2) cs
  guard (skip rest).isEmpty
  return x

end Json

end DocExport
