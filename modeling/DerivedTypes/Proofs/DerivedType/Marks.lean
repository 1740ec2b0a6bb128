import DerivedTypes.Proofs.Ownership.Holdings

namespace DerivedTypes

/-!
# Types and descriptors without marks

A descriptor may be marked: a flag forbids to finalize its storage. `withoutMarks` takes this flag
away, from a descriptor and from all static descriptors of the types that it names. Nothing else
changes, so what a type says about its instances without regard to finalization is the same without
marks.
-/

/-- Flags without the one that forbids finalization. -/
def unmark (flags : UInt8) : UInt8 := flags &&& ~~~2

/-- The flag for the addendum is no mark. -/
theorem testBit_unmark_zero (flags : UInt8) :
    (unmark flags).toNat.testBit 0 = flags.toNat.testBit 0 := by
  simp [unmark]

mutual

/-- The type whose static descriptors have no marks, nor have those of the types that they name. -/
def DerivedType.withoutMarks : DerivedType → DerivedType
  | ⟨number, name, parameters, components, procedures, image, size, isSequence, isBindC, summary⟩ =>
    ⟨number, name, parameters, componentsWithoutMarks components, procedures, image, size,
      isSequence, isBindC,
      summary⟩

/-- Each of several components without marks. -/
def componentsWithoutMarks : List Component → List Component
  | [] => []
  | c :: rest => c.withoutMarks :: componentsWithoutMarks rest

/-- The component whose static descriptor has no marks. -/
def Component.withoutMarks : Component → Component
  | ⟨name, isParent, isPrivate, isDescriptor, typeCode, shape, offset⟩ =>
    ⟨name, isParent, isPrivate, isDescriptor, typeCode, shapeWithoutMarks shape, offset⟩

/-- A static descriptor, if there is one, without marks. -/
def shapeWithoutMarks : Option Descriptor → Option Descriptor
  | none => none
  | some d => some d.withoutMarks

/-- The descriptor without a mark, of a type without marks. -/
def Descriptor.withoutMarks : Descriptor → Descriptor
  | ⟨base, elementSize, typeCode, rank, attr, flags, dimensionSlots, addendumType, lenValues⟩ =>
    ⟨base, elementSize, typeCode, rank, attr, unmark flags, dimensionSlots,
      typeWithoutMarks addendumType,
      lenValues⟩

/-- The type that an addendum names, if it names one, without marks. -/
def typeWithoutMarks : Option DerivedType → Option DerivedType
  | none => none
  | some ty => some ty.withoutMarks

end

/-- Each component loses its mark. -/
theorem componentsWithoutMarks_eq (cs : List Component) :
    componentsWithoutMarks cs = cs.map (·.withoutMarks) := by
  induction cs with
  | nil => rfl
  | cons c rest ih => rw [componentsWithoutMarks, ih, List.map_cons]

/-- A static descriptor loses its mark if there is one. -/
theorem shapeWithoutMarks_eq (shape : Option Descriptor) :
    shapeWithoutMarks shape = shape.map (·.withoutMarks) := by
  cases shape <;> rfl

/-- The type that an addendum names loses its marks if there is one. -/
theorem typeWithoutMarks_eq (ty : Option DerivedType) :
    typeWithoutMarks ty = ty.map (·.withoutMarks) := by
  cases ty <;> rfl

/-! ### Descriptors -/

namespace Descriptor

variable (d : Descriptor)

/-- All fields of a descriptor without marks. -/
theorem withoutMarks_eq :
    d.withoutMarks =
      { d with flags := unmark d.flags, addendumType := d.addendumType.map (·.withoutMarks) } := by
  cases d
  rw [withoutMarks, typeWithoutMarks_eq]

/-- The base is no mark. -/
@[simp] theorem base_withoutMarks : d.withoutMarks.base = d.base := by rw [withoutMarks_eq]

/-- The type code is no mark. -/
@[simp] theorem typeCode_withoutMarks :
    d.withoutMarks.typeCode = d.typeCode := by rw [withoutMarks_eq]

/-- Whether a descriptor is allocatable does not depend on marks. -/
@[simp] theorem isAllocatable_withoutMarks : d.withoutMarks.isAllocatable = d.isAllocatable := by
  rw [withoutMarks_eq]
  rfl

/-- Nor does it matter to ownership. -/
@[simp] theorem isOwner_withoutMarks : d.withoutMarks.isOwner = d.isOwner := by
  rw [withoutMarks_eq]
  rfl

/-- Nor does it matter to the size of the storage. -/
@[simp] theorem blockSize?_withoutMarks : d.withoutMarks.blockSize? = d.blockSize? := by
  rw [withoutMarks_eq]
  rfl

/-- Nor does it matter to the places of the elements. -/
@[simp] theorem elementAddresses_withoutMarks :
    d.withoutMarks.elementAddresses = d.elementAddresses := by
  rw [withoutMarks_eq]
  rfl

/-- The type loses its own marks. -/
@[simp] theorem addendumType_withoutMarks :
    d.withoutMarks.addendumType = d.addendumType.map (·.withoutMarks) := by rw [withoutMarks_eq]

/-- A mark does not touch the flag of the addendum. -/
@[simp] theorem hasAddendum_withoutMarks : d.withoutMarks.hasAddendum = d.hasAddendum := by
  rw [withoutMarks_eq]
  exact testBit_unmark_zero d.flags

/-- The type of the elements, without marks. -/
@[simp] theorem derivedType?_withoutMarks :
    d.withoutMarks.derivedType? = d.derivedType?.map (·.withoutMarks) := by
  by_cases addendum : d.hasAddendum <;> simp [derivedType?, addendum]

/-- It does not matter whether the base or the mark is taken away first. -/
theorem withoutMarks_withoutBase : ({ d with base := none } : Descriptor).withoutMarks =
    { d.withoutMarks with base := none } := by
  rw [withoutMarks_eq, withoutMarks_eq]

end Descriptor

/-! ### Components -/

namespace Component

variable (c : Component)

/-- All fields of a component without marks. -/
theorem withoutMarks_eq :
    c.withoutMarks = { c with static? := c.static?.map (·.withoutMarks) } := by
  cases c
  rw [withoutMarks, shapeWithoutMarks_eq]

/-- A parent field is one with and without marks. -/
@[simp] theorem isParent_withoutMarks :
    c.withoutMarks.isParent = c.isParent := by rw [withoutMarks_eq]

/-- A descriptor component is one with and without marks. -/
@[simp] theorem isDescriptor_withoutMarks : c.withoutMarks.isDescriptor = c.isDescriptor := by
  rw [withoutMarks_eq]

/-- The offset is no mark. -/
@[simp] theorem offset_withoutMarks : c.withoutMarks.offset = c.offset := by rw [withoutMarks_eq]

/-- The static descriptor loses its own mark. -/
@[simp] theorem static?_withoutMarks : c.withoutMarks.static? = c.static?.map (·.withoutMarks) := by
  rw [withoutMarks_eq]

/-- The embedded elements, without marks. -/
theorem embedded?_withoutMarks :
    c.withoutMarks.embedded? = c.embedded?.map fun x => (x.1.withoutMarks, x.2.withoutMarks) := by
  cases static : c.static? with
  | none => simp [embedded?, static]
  | some shape => cases slot : c.isDescriptor <;> simp [embedded?, static, slot, Function.comp_def]

end Component

/-! ### Types -/

namespace DerivedType

variable (ty : DerivedType)

/-- All fields of a type without marks. -/
theorem withoutMarks_eq :
    ty.withoutMarks = { ty with components := ty.components.map (·.withoutMarks) } := by
  cases ty
  rw [withoutMarks, componentsWithoutMarks_eq]

/-- The components lose their marks. -/
@[simp] theorem components_withoutMarks :
    ty.withoutMarks.components = ty.components.map (·.withoutMarks) := by rw [withoutMarks_eq]

/-- A type extends another one with and without marks. -/
@[simp] theorem isExtension_withoutMarks : ty.withoutMarks.isExtension = ty.isExtension := by
  rw [isExtension, isExtension, components_withoutMarks, List.head?_map, Option.any_map]
  simp

/-- The parent without marks, or the same missing link. -/
theorem parent_withoutMarks : ty.withoutMarks.parent = ty.parent.map (·.withoutMarks) := by
  unfold parent
  rw [components_withoutMarks, List.head?_map]
  cases ty.components.head? with
  | none => rfl
  | some c =>
    simp only [Option.map_some, Option.bind_some, Component.static?_withoutMarks]
    cases c.static? with
    | none => rfl
    | some shape =>
      by_cases addendum : shape.hasAddendum
      · cases type : shape.addendumType <;> simp [addendum, type, Except.map]
      · simp [addendum, Except.map]

end DerivedType

end DerivedTypes
