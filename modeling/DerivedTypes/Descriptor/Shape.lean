import DerivedTypes.DerivedType.Basic
import DerivedTypes.Fault

namespace DerivedTypes

/-!
# Descriptors

How descriptors come about, and what they say about the storage that they describe.

* `Descriptor.static`: the shape of a component; `establishDerived` and `establishIntrinsic`: the
  description of storage at run time; `setBounds`: new bounds for all dimensions;
* `elementCount?`, `storageBytes?`, `boundsBytes?`: sizes, or nothing when a word cannot hold one;
* `lenValue`, `setLenValue`: the values of LEN parameters.
-/

namespace Dimension

/-- Number of subscripts from `lower` to `upper`, or nothing when no subscript can count them. -/
def extentBetween? (lower upper : Subscript) : Option Subscript :=
  if upper < lower then some 0 else Subscript.fit? (upper.toInt - lower.toInt + 1)

/-- The last subscript, as near as a subscript gets. -/
def upper (dim : Dimension) : Subscript :=
  Subscript.saturate ((Subscript.saturate (dim.lower.toInt + dim.extent.toInt)).toInt - 1)

/-- Dimensions laid out without gaps: each one strides over all those before it. The first stride is
    given, and strides saturate. -/
def contiguous (stride : Subscript) : List (Subscript × Subscript) → List Dimension
  | [] => []
  | (lower, extent) :: rest =>
    ⟨lower, extent, stride⟩ :: contiguous (.saturate (stride.toInt * extent.toInt)) rest

/-- There is one dimension for each pair of bounds. -/
@[simp] theorem length_contiguous (stride : Subscript) (bounds : List (Subscript × Subscript)) :
    (contiguous stride bounds).length = bounds.length := by
  induction bounds generalizing stride with
  | nil => rfl
  | cons b rest ih => simp [contiguous, ih]

end Dimension

namespace Descriptor

/-! ### Shape -/

/-- The dimensions that the rank counts, as far as there are slots. -/
def dimensions (d : Descriptor) : List Dimension :=
  (d.dimensionSlots.toArray.take d.rank.toNat).toList

/-- Puts dimensions into the first slots. -/
def withDimensions (d : Descriptor) (dims : List Dimension) : Except Fault Descriptor :=
  if dims.length ≤ maxRank then
    .ok { d with dimensionSlots := .ofFn fun i => (dims[i.val]?).getD (d.dimensionSlots.get i) }
  else .error .indexOutOfRange

/-- Sets the bounds of the dimensions that the rank counts, contiguously. An upper bound below the
    lower one makes a dimension empty, and an extent too large to count is the largest one. -/
def setBounds (d : Descriptor) (lower upper : List Subscript) : Except Fault Descriptor :=
  let bounds := (lower.zip upper).take d.rank.toNat |>.map fun (lb, ub) =>
    (lb, (Dimension.extentBetween? lb ub).getD Int64.maxValue)
  d.withDimensions (Dimension.contiguous (.saturate d.elementSize.toNat) bounds)

/-! ### Making descriptors -/

/-- The static descriptor of a component of derived type with the given extents; none of them make
    it a scalar. Lower bounds are 1. -/
def static (ty : DerivedType) (extents : List Subscript) : Except Fault Descriptor :=
  let d : Descriptor :=
    { zeroed with
      elementSize := ty.size
      typeCode := .derived
      rank := .ofNat extents.length
      flags := 1
      addendumType := some ty }
  d.withDimensions (Dimension.contiguous ty.size.toInt64 (extents.map (1, ·)))

/-- Describes storage at `base` with lower bounds 1. Flags and addendum stay as they are. -/
def establish (d : Descriptor) (typeCode : TypeCode) (elementSize : UInt64) (base : Option Address)
    (extents : List Subscript) (attr : Attribute) : Except Fault Descriptor :=
  if extents.length ≤ maxRank then
    { d with
      base, elementSize, typeCode, attr
      rank := .ofNat extents.length
      dimensionSlots := .replicate 15 .empty }.setBounds (extents.map fun _ => 1) extents
  else .error (.fatal .tooManyDimensions)

/-- Describes elements of a derived type, with an addendum that names it. -/
def establishDerived (d : Descriptor) (ty : DerivedType) (base : Option Address)
    (extents : List Subscript) (attr : Attribute) : Except Fault Descriptor := do
  let d ← d.establish .derived ty.size base extents attr
  return { d with flags := 1, addendumType := some ty, lenValues := .replicate 8 0 }

/-- Describes elements of intrinsic type, without an addendum. -/
def establishIntrinsic (d : Descriptor) (typeCode : TypeCode) (elementSize : UInt64)
    (base : Option Address) (extents : List Subscript) (attr : Attribute) :
    Except Fault Descriptor := do
  let d ← d.establish typeCode elementSize base extents attr
  return { d with flags := 0, addendumType := none, lenValues := .replicate 8 0 }

/-! ### Making allocatable variables

Each leaves the variable unallocated, with empty dimensions. -/

/-- An allocatable of intrinsic type. A code without an element size takes its kind for one. -/
def initIntrinsic (d : Descriptor) (typeCode : TypeCode) (rank : Nat) : Except Fault Descriptor :=
  d.establishIntrinsic typeCode (.ofNat (typeCode.elementBytes?.getD typeCode.kind.toNat)) none
    (.replicate rank 0) .allocatable

/-- An allocatable of `length` characters of `kind` bytes. -/
def initCharacter (d : Descriptor) (length : UInt64) (kind : UInt8) (rank : Nat) :
    Except Fault Descriptor :=
  d.establishIntrinsic (.character kind) (length * kind.toUInt64) none
    (.replicate rank 0) .allocatable

/-- An allocatable of derived type. -/
def initDerived (d : Descriptor) (ty : DerivedType) (rank : Nat) : Except Fault Descriptor :=
  d.establishDerived ty none (.replicate rank 0) .allocatable

/-! ### Sizes -/

/-- Product of the extents in table order, a negative one counting as zero. There is none as soon as
    a word cannot hold it, whatever follows. -/
def elementCount? (d : Descriptor) : Option Nat :=
  d.dimensions.foldlM (fun count dim => Word.mul? count dim.extent.toInt.toNat) 1

/-- Number of elements, at most the largest word. -/
def elementCount (d : Descriptor) : Nat :=
  d.elementCount?.getD Word.maximum

/-- Bytes of the described storage. -/
def storageBytes? (d : Descriptor) : Option Nat := do
  Word.mul? (← d.elementCount?) d.elementSize.toNat

/-- Bytes that the storage would take with the given bounds. -/
def boundsBytes? (d : Descriptor) (lower upper : List Subscript) : Option Nat := do
  let count ← (lower.zip upper).foldlM (fun count (lb, ub) => do
    Word.mul? count (← Dimension.extentBetween? lb ub).toInt.toNat) 1
  Word.mul? count d.elementSize.toNat

/-- Addresses of all elements of storage that starts at `data`, in element order. -/
def elementAddresses (d : Descriptor) (data : Address) : List Address :=
  (List.range d.elementCount).map fun j => data + j * d.elementSize.toNat

/-! ### State -/

/-- Whether there is storage. -/
def isAllocated (d : Descriptor) : Bool := d.base.isSome

/-- Whether the storage is that of an allocatable variable. -/
def isAllocatable (d : Descriptor) : Bool := d.attr == .allocatable

/-- Whether the descriptor is one of a pointer. -/
def isPointer (d : Descriptor) : Bool := d.attr == .pointer

/-- Destroying the storage calls no finalizer. -/
def isFinalizationSuppressed (d : Descriptor) : Bool := d.flags.toNat.testBit 1

/-- Forbids or allows finalization of the storage. -/
def suppressFinalization (d : Descriptor) (suppress : Bool) : Descriptor :=
  { d with flags := if suppress then d.flags ||| 2 else d.flags &&& ~~~2 }

/-! ### Values of LEN parameters -/

/-- The value in a slot, whether or not the addendum counts. -/
def lenValue (d : Descriptor) (slot : Nat) : Except Fault Subscript :=
  if h : slot < 8 then .ok d.lenValues[slot] else .error .indexOutOfRange

/-- Stores a value in a slot. -/
def setLenValue (d : Descriptor) (slot : Nat) (value : Subscript) : Except Fault Descriptor :=
  if h : slot < 8 then .ok { d with lenValues := d.lenValues.set slot value }
  else .error .indexOutOfRange

end Descriptor

/-- The value of a parameter in the instances that `d` describes. -/
def TypeParameter.valueIn (p : TypeParameter) (d : Descriptor) : Except Fault Subscript :=
  match p.slot? with
  | none => .ok p.value
  | some slot => d.lenValue slot

end DerivedTypes
