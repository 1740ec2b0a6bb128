import DerivedTypes.Address
import DerivedTypes.DerivedType.FillFlags
import DerivedTypes.DerivedType.Parameter
import DerivedTypes.DerivedType.Procedure

namespace DerivedTypes

/-!
# Tables of derived types

A `DerivedType` lists parameters, components and procedures. A `Component` of fixed shape or of
derived type has a static `Descriptor`, and that descriptor names the type of its elements, so the
three are defined together. Nesting is finite: `Component.sizeOf_derivedType` is the measure on
which functions over nested types recurse.

Descriptors also describe storage at run time, then with a base address.
-/

/-- Most dimensions that a descriptor has room for. -/
def maxRank : Nat := 15

/-- Number of slots for LEN values in a descriptor. -/
def lenSlots : Nat := 8

/-- Bytes that a descriptor takes in memory. -/
def descriptorBytes : Nat := 456

/-- Alignment of a descriptor in memory. -/
def descriptorAlignment : Nat := 8

/-- Bounds and stride of one dimension. -/
structure Dimension where
  lower : Subscript
  extent : Subscript
  byteStride : Subscript
deriving DecidableEq, Repr, Inhabited

/-- The dimension of a descriptor that was never established. -/
def Dimension.empty : Dimension := ⟨0, 0, 0⟩

/-- What the storage of a descriptor belongs to. -/
inductive Attribute where
  | other
  | pointer
  | allocatable
deriving DecidableEq, Repr, Inhabited

namespace Attribute

/-- The word for an attribute. -/
def name : Attribute → String
  | other => "other"
  | pointer => "pointer"
  | allocatable => "allocatable"

/-- The name of an attribute in inspection texts. -/
def label : Attribute → String
  | other => "Other"
  | pointer => "Pointer"
  | allocatable => "Allocatable"

/-- The byte that stands for an attribute in memory. -/
def toByte : Attribute → UInt8
  | other => 0
  | pointer => 1
  | allocatable => 2

/-- The attribute that a byte stands for. -/
def ofByte? (b : UInt8) : Option Attribute :=
  [other, pointer, allocatable].find? (·.toByte == b)

/-- An attribute is found again from its byte. -/
theorem ofByte?_toByte (a : Attribute) : ofByte? a.toByte = some a := by
  cases a <;> rfl

end Attribute

/-- What follows for a type from its components and the types that these name. -/
structure Summary where
  /-- What default initialization does to the components. -/
  fillFlags : FillFlags
  /-- Required alignment of an instance. -/
  alignment : Nat
deriving DecidableEq, Repr, Inhabited

/-- The summary of a type without components. -/
def Summary.blank : Summary := ⟨.none, 1⟩

mutual

/-- Description of one derived type. -/
structure DerivedType where
  /-- Which table of the program this is. Listings of memory show a pointer to a table by it. -/
  number : Nat
  name : String
  parameters : List TypeParameter
  components : List Component
  procedures : List Procedure
  /-- The default value of a whole instance, byte for byte. -/
  image : Option (List UInt8)
  /-- Bytes of one instance. -/
  size : UInt64
  isSequence : Bool
  isBindC : Bool
  /-- Facts that need not be worked out again. They are right once `DerivedType.summarize` put them
      in. -/
  summary : Summary := .blank

/-- One field at a fixed offset of an instance. -/
structure Component where
  name : String
  /-- The field holds the data of the extended type. -/
  isParent : Bool := false
  isPrivate : Bool := false
  /-- The field is a descriptor: its data lie elsewhere. -/
  isDescriptor : Bool := false
  typeCode : TypeCode
  /-- Shape and type of a field of derived type or of fixed shape; its base is never used. -/
  static? : Option Descriptor := none
  offset : UInt64

/-- Shape, storage and type of an array of values, or of one value at rank 0. -/
structure Descriptor where
  base : Option Address
  /-- Bytes of one element. -/
  elementSize : UInt64
  typeCode : TypeCode
  rank : UInt8
  attr : Attribute
  /-- Bit 0: the addendum counts, 1: the storage is not to be finalized. -/
  flags : UInt8
  dimensionSlots : Vector Dimension 15
  /-- The type that the addendum names. -/
  addendumType : Option DerivedType
  /-- The values of LEN parameters in the addendum. -/
  lenValues : Vector Subscript 8

end

namespace Descriptor

/-- The descriptor whose bytes are all zero: no storage, no dimensions, no type. -/
def zeroed : Descriptor where
  base := none
  elementSize := 0
  typeCode := .other
  rank := 0
  attr := .other
  flags := 0
  dimensionSlots := .replicate 15 .empty
  addendumType := none
  lenValues := .replicate 8 0

instance : Inhabited Descriptor := ⟨zeroed⟩

/-- The addendum counts. -/
def hasAddendum (d : Descriptor) : Bool := d.flags.toNat.testBit 0

/-- The type of the elements, for elements of derived type. -/
def derivedType? (d : Descriptor) : Option DerivedType :=
  if d.hasAddendum then d.addendumType else none

/-- The type that a descriptor names is smaller than the descriptor. -/
theorem sizeOf_derivedType {d : Descriptor} {ty : DerivedType} (h : d.derivedType? = some ty) :
    sizeOf ty < sizeOf d := by
  unfold derivedType? at h
  split at h
  · cases d
    simp only at h
    subst h
    simp only [mk.sizeOf_spec, Option.some.sizeOf_spec]
    omega
  · cases h

end Descriptor

namespace Component

/-- An intrinsic scalar. -/
def intrinsic (name : String) (typeCode : TypeCode) (offset : UInt64) : Component :=
  { name, typeCode, offset }

/-- A field of derived type, scalar or of fixed shape. -/
def derived (name : String) (shape : Descriptor) (offset : UInt64) : Component :=
  { name, typeCode := .derived, static? := some shape, offset }

/-- The field of the extended type, which comes first in an instance. -/
def parent (name : String) (shape : Descriptor) : Component :=
  { name, isParent := true, typeCode := .derived, static? := some shape, offset := 0 }

/-- An allocatable or pointer field. -/
def descriptor (name : String) (typeCode : TypeCode) (offset : UInt64) : Component :=
  { name, isDescriptor := true, typeCode, offset }

/-- The type that the static descriptor names. -/
def derivedType? (c : Component) : Option DerivedType :=
  c.static?.bind (·.derivedType?)

/-- The elements of derived type that lie inside the field itself: their shape and their type. -/
def embedded? (c : Component) : Option (Descriptor × DerivedType) :=
  if c.isDescriptor then none
  else c.static?.bind fun shape => shape.derivedType?.map (shape, ·)

/-- The type that a component names is smaller than the component. -/
theorem sizeOf_derivedType {c : Component} {ty : DerivedType} (h : c.derivedType? = some ty) :
    sizeOf ty < sizeOf c := by
  obtain ⟨shape, static, named⟩ := Option.bind_eq_some_iff.mp h
  have lt := Descriptor.sizeOf_derivedType named
  cases c
  simp only at static
  subst static
  simp only [mk.sizeOf_spec, Option.some.sizeOf_spec]
  omega

/-- What it takes to be an embedded component: no descriptor in the instance, but a static one that
    names a type. -/
theorem embedded?_eq_some_iff {c : Component} {shape : Descriptor} {ty : DerivedType} :
    c.embedded? = some (shape, ty) ↔
      c.isDescriptor = false ∧ c.static? = some shape ∧ shape.derivedType? = some ty := by
  unfold embedded?
  split <;> simp_all [Option.bind_eq_some_iff]

/-- What keeps a component from being an embedded one. -/
theorem embedded?_eq_none_iff {c : Component} :
    c.embedded? = none ↔
      c.isDescriptor = true ∨ ∀ shape, c.static? = some shape → shape.derivedType? = none := by
  unfold embedded?
  split <;> simp_all [Option.bind_eq_none_iff]

/-- The type of an embedded component is the one that the component names. -/
theorem derivedType?_of_embedded? {c : Component} {shape : Descriptor} {ty : DerivedType}
    (h : c.embedded? = some (shape, ty)) : c.derivedType? = some ty := by
  obtain ⟨_, static, named⟩ := embedded?_eq_some_iff.mp h
  simp [derivedType?, static, named]

end Component

namespace DerivedType

/-- A type is larger than each type that its components name. -/
theorem sizeOf_component {ty nested : DerivedType} {c : Component} (mem : c ∈ ty.components)
    (h : c.derivedType? = some nested) : sizeOf nested < sizeOf ty := by
  have lt := Component.sizeOf_derivedType h
  have lt' := List.sizeOf_lt_of_mem mem
  cases ty
  simp only [mk.sizeOf_spec] at *
  omega

/-- A type is larger than each type whose instances lie inside its own. -/
theorem sizeOf_embedded {ty nested : DerivedType} {c : Component} {shape : Descriptor}
    (mem : c ∈ ty.components) (h : c.embedded? = some (shape, nested)) :
    sizeOf nested < sizeOf ty :=
  sizeOf_component mem (Component.derivedType?_of_embedded? h)

end DerivedType

end DerivedTypes
