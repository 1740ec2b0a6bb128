namespace DerivedTypes

/-!
# Inspection texts

One-line texts that show a value by the names of its fields, for tests and debugging. The pieces are
`Inspect.record`, `Inspect.list`, `Inspect.optional`, `Inspect.flags` and `Inspect.quoted`.
-/

namespace Inspect

/-- The least hexadecimal numeral, in lower case. -/
def hexadecimal (n : Nat) : String :=
  String.ofList (Nat.toDigits 16 n)

/-- One character between quotes. Control characters are escaped, letters of other scripts are
    not. -/
def escaped (c : Char) : String :=
  if c = '"' then "\\\""
  else if c = '\\' then "\\\\"
  else if c = '\n' then "\\n"
  else if c = '\r' then "\\r"
  else if c = '\t' then "\\t"
  else if c.toNat = 0 then "\\0"
  else if c.toNat < 0x20 ∨ c.toNat = 0x7f then "\\u\x7b" ++ hexadecimal c.toNat ++ "\x7d"
  else c.toString

/-- A text between double quotes. -/
def quoted (s : String) : String :=
  "\"" ++ String.join (s.toList.map escaped) ++ "\""

/-- A value that may be absent. -/
def optional : Option String → String
  | none => "None"
  | some s => "Some(" ++ s ++ ")"

/-- A list in square brackets. -/
def list (items : List String) : String :=
  "[" ++ ", ".intercalate items ++ "]"

/-- A record with its fields in order. -/
def record (name : String) (fields : List (String × String)) : String :=
  name ++ " \x7b " ++ ", ".intercalate (fields.map fun (field, text) =>
    field ++ ": " ++ text) ++ " \x7d"

/-- A set of flags: the names of those that are set, then the bits that have no name. -/
def flags (name : String) (set : List String) (unnamed : Nat) : String :=
  let rest := if unnamed = 0 then [] else ["0x" ++ hexadecimal unnamed]
  match set ++ rest with
  | [] => name ++ "(0x0)"
  | items => name ++ "(" ++ " | ".intercalate items ++ ")"

end Inspect

end DerivedTypes
