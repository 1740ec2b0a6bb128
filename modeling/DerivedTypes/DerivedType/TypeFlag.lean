import DerivedTypes.DerivedType.Summary

namespace DerivedTypes

/-!
# Flags of a type

The properties of a type that have a bit each, and the words for them in dumps and inspection texts.
-/

/-- A property that a type has or has not, with a bit of its own. -/
inductive TypeFlag where
  | sequence
  | bindC
  | finalizable
  | initZero
  | initComponent
deriving DecidableEq, Repr, Inhabited

namespace TypeFlag

/-- All flags, lowest bit first. -/
def all : List TypeFlag := [sequence, bindC, finalizable, initZero, initComponent]

/-- The bit of a flag. -/
def bit : TypeFlag → Nat
  | sequence => 1
  | bindC => 2
  | finalizable => 4
  | initZero => 8
  | initComponent => 16

/-- The word for a flag in dumps. -/
def word : TypeFlag → String
  | sequence => "sequence"
  | bindC => "bind(c)"
  | finalizable => "finalizable"
  | initZero => "init-zero"
  | initComponent => "init-component"

/-- The name of a flag in inspection texts. -/
def label : TypeFlag → String
  | sequence => "SEQUENCE"
  | bindC => "BIND_C"
  | finalizable => "FINALIZABLE"
  | initZero => "INIT_ZERO"
  | initComponent => "INIT_COMPONENT"

/-- Whether a type has the property. -/
def holds (ty : DerivedType) : TypeFlag → Bool
  | sequence => ty.isSequence
  | bindC => ty.isBindC
  | finalizable => ty.isFinalizable
  | initZero => ty.isZeroFilled
  | initComponent => ty.isFilledByComponent

end TypeFlag

/-- The flags of a type, lowest bit first. -/
def DerivedType.flags (ty : DerivedType) : List TypeFlag :=
  TypeFlag.all.filter (TypeFlag.holds ty)

end DerivedTypes
