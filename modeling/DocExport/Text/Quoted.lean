import DocExport.Text.HiddenTable

/-!
# Quoted text

Where a value is described, text stands between double quotes.  Inside them a quote and a
backslash are preceded by a backslash, common control characters have short names, and every
other character that does not show by itself is written as its number.

* **Main results.** `quote` puts a text between quotes.
-/

namespace DocExport.Text.Quoted

/-- A number in hexadecimal, without leading zeros. -/
def hexadecimal (n : Nat) : List Char := Nat.toDigits 16 n

/-- A character written as its number. -/
def numbered (c : Char) : List Char :=
  ['\\', 'u', '\x7b'] ++ hexadecimal c.toNat ++ ['\x7d']

/-- A character as it stands between quotes. -/
def escape (c : Char) : List Char :=
  if c = '\x00' then ['\\', '0']
  else if c = '\t' then ['\\', 't']
  else if c = '\r' then ['\\', 'r']
  else if c = '\n' then ['\\', 'n']
  else if c = '\\' then ['\\', '\\']
  else if c = '"' then ['\\', '"']
  else if hiddenRanges.mem c then numbered c
  else [c]

/-- What stands between the quotes. -/
def body (cs : List Char) : List Char := cs.flatMap escape

/-- A text between quotes. -/
def quote (s : String) : String := "\"" ++ String.ofList (body s.toList) ++ "\""

end DocExport.Text.Quoted
