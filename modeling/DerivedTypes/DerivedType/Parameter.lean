import DerivedTypes.TypeCode
import DerivedTypes.Word

namespace DerivedTypes

/-!
# Type parameters

A KIND parameter has one value for all instances of a type. A LEN parameter has a value per
instance, kept in a numbered slot of the descriptor, and a default.
-/

/-- One type parameter declaration. -/
structure TypeParameter where
  name : String
  typeCode : TypeCode
  /-- The slot of a LEN parameter; a KIND parameter has none. -/
  slot? : Option Nat
  /-- The value of a KIND parameter, or the default of a LEN parameter. -/
  value : Subscript
deriving DecidableEq, Repr, Inhabited

namespace TypeParameter

/-- A KIND parameter. -/
def kind (name : String) (typeCode : TypeCode) (value : Subscript) : TypeParameter :=
  ⟨name, typeCode, none, value⟩

/-- A LEN parameter. -/
def len (name : String) (typeCode : TypeCode) (preset : Subscript) (slot : Nat) : TypeParameter :=
  ⟨name, typeCode, some slot, preset⟩

/-- The parameter with a slot number in which every negative number means KIND. -/
def ofNumber (name : String) (typeCode : TypeCode) (number : Int) (value : Subscript) :
    TypeParameter :=
  ⟨name, typeCode, if number < 0 then none else some number.toNat, value⟩

/-- Whether the parameter has one value for all instances. -/
def isKind (p : TypeParameter) : Bool := p.slot?.isNone

/-- Whether the parameter has a value per instance. -/
def isLen (p : TypeParameter) : Bool := p.slot?.isSome

end TypeParameter

end DerivedTypes
