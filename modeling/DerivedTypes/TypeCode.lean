import DerivedTypes.Inspect

namespace DerivedTypes

/-!
# Type codes

A `TypeCode` is the category and the kind of a component or of a type parameter. The code of derived
types does not say which type it is: a static descriptor does.
-/

/-- Category of a type code. -/
inductive Category where
  | other
  | integer
  | real
  | complex
  | character
  | logical
  | derived
deriving DecidableEq, Repr, Inhabited

namespace Category

/-- The keyword of a category. -/
def name : Category → String
  | other => "OTHER"
  | integer => "INTEGER"
  | real => "REAL"
  | complex => "COMPLEX"
  | character => "CHARACTER"
  | logical => "LOGICAL"
  | derived => "TYPE"

/-- The name of a category in inspection texts. -/
def label : Category → String
  | other => "Other"
  | integer => "Integer"
  | real => "Real"
  | complex => "Complex"
  | character => "Character"
  | logical => "Logical"
  | derived => "Derived"

/-- The categories whose kind is part of the type. -/
def isIntrinsic : Category → Bool
  | other | derived => false
  | _ => true

/-- The byte that stands for a category in memory. -/
def toByte : Category → UInt8
  | other => 0
  | integer => 1
  | real => 2
  | complex => 3
  | character => 4
  | logical => 5
  | derived => 6

/-- The category that a byte stands for. -/
def ofByte? (b : UInt8) : Option Category :=
  [other, integer, real, complex, character, logical, derived].find? (·.toByte == b)

/-- A category is found again from its byte. -/
theorem ofByte?_toByte (c : Category) : ofByte? c.toByte = some c := by
  cases c <;> rfl

end Category

/-- Category and kind. The kind of character data is the width of one character in bytes. -/
structure TypeCode where
  category : Category
  kind : UInt8
deriving DecidableEq, Repr, Inhabited

namespace TypeCode

/-- No type in particular. -/
def other : TypeCode := ⟨.other, 0⟩

/-- The code of every derived type. -/
def derived : TypeCode := ⟨.derived, 0⟩

/-- Characters of `kind` bytes each. -/
def character (kind : UInt8) : TypeCode := ⟨.character, kind⟩

/-- Whether the code is that of a derived type. -/
def isDerived (t : TypeCode) : Bool := t.category == .derived

/-- Whether the code is that of characters. -/
def isCharacter (t : TypeCode) : Bool := t.category == .character

/-- Bytes of one element, or nothing when the code alone does not tell. For characters this is one
    character. -/
def elementBytes? (t : TypeCode) : Option Nat :=
  match t.category with
  | .integer | .real | .logical | .character => some t.kind.toNat
  | .complex => some (2 * t.kind.toNat)
  | .other | .derived => none

/-- Exactly one bit of the byte is set. -/
def isPowerOfTwo (k : UInt8) : Bool :=
  k != 0 && (k &&& (k - 1)) == 0

/-- Required alignment of one element: the kind, where that is a power of two. -/
def alignment (t : TypeCode) : Nat :=
  match t.category with
  | .character | .other | .derived => 1
  | .integer | .real | .complex | .logical => if isPowerOfTwo t.kind then t.kind.toNat else 1

/-- The keyword, with the kind in parentheses for an intrinsic type. -/
def text (t : TypeCode) : String :=
  if t.category.isIntrinsic then t.category.name ++ "(" ++ toString t.kind.toNat ++ ")"
  else t.category.name

/-- The inspection text of a type code. -/
def inspect (t : TypeCode) : String :=
  Inspect.record "TypeCode" [("category", t.category.label), ("kind", toString t.kind.toNat)]

end TypeCode

end DerivedTypes
