import DerivedTypes.Machine.DefaultValue
import DerivedTypes.Proofs.Memory.Frame

namespace DerivedTypes

/-!
# What lies inside an instance

An instance consists of descriptors and of instances of other types: its `parts`. In a type that is
`LaidOut` they lie side by side.

* `DerivedType.Throughout`: a property of a type and of all types whose instances lie inside its
  own;
* `DerivedType.parts`: the descriptors and the instances directly inside an instance. Parts lie
  inside (`exists_offset_of_mem_parts`) and have no byte in common (`pairwise_parts`);
* `DerivedType.slots`: the descriptors at any depth, with the same two laws
  (`exists_offset_of_mem_slots`, `pairwise_slots`).
-/

/-! ### Properties of nested types -/

namespace DerivedType

/-- A property of a type and of all types whose instances lie inside its own, at any depth. -/
inductive Throughout (P : DerivedType → Prop) : DerivedType → Prop
  | intro {ty : DerivedType} (own : P ty)
      (nested : ∀ c ∈ ty.components, ∀ shape inner, c.embedded? = some (shape, inner) →
        Throughout P inner) :
      Throughout P ty

namespace Throughout

variable {P Q : DerivedType → Prop} {ty inner : DerivedType}

/-- The type itself has the property. -/
theorem own (h : ty.Throughout P) : P ty := by
  cases h
  assumption

/-- Each embedded type has it, and so have all types in that. -/
theorem of_embedded (h : ty.Throughout P) {c : Component} {shape : Descriptor}
    (mem : c ∈ ty.components) (embedded : c.embedded? = some (shape, inner)) :
    inner.Throughout P := by
  cases h with
  | intro _ nested => exact nested c mem shape inner embedded

/-- In a type without embedded elements there are no others. -/
theorem of_plain (own : P ty) (plain : ∀ c ∈ ty.components, c.embedded? = none) : ty.Throughout P :=
  .intro own fun c mem shape inner embedded => by
    rw [plain c mem] at embedded
    cases embedded

/-- All types have each weaker property. -/
theorem imp (h : ty.Throughout P) (weaker : ∀ ty, P ty → Q ty) : ty.Throughout Q := by
  induction h with
  | intro own _ ih => exact .intro (weaker _ own) ih

end Throughout

end DerivedType

/-! ### Extents -/

namespace Component

/-- Bytes that a component takes in an instance: those of a descriptor, of all elements that its
    static descriptor counts, or of an intrinsic value. -/
def extent (c : Component) : Nat :=
  if c.isDescriptor then descriptorBytes
  else
    match c.static? with
    | some shape => shape.elementCount * shape.elementSize.toNat
    | none => c.typeCode.elementBytes?.getD 0

/-- A byte of an instance, by its offset, belongs to a component. -/
def Covers (c : Component) (offset : Nat) : Prop :=
  c.offset.toNat ≤ offset ∧ offset < c.offset.toNat + c.extent

variable {c : Component}

/-- A descriptor component extends over the bytes of a descriptor. -/
theorem extent_of_isDescriptor (h : c.isDescriptor = true) : c.extent = descriptorBytes :=
  if_pos h

/-- An embedded component extends over its elements. -/
theorem extent_of_embedded {shape : Descriptor} {ty : DerivedType}
    (h : c.embedded? = some (shape, ty)) :
    c.extent = shape.elementCount * shape.elementSize.toNat := by
  obtain ⟨plain, static, _⟩ := embedded?_eq_some_iff.mp h
  rw [extent, static, if_neg (by simp [plain])]

/-- A component without embedded elements may have a shape, but no type. -/
theorem derivedType?_of_plain (plain : c.isDescriptor = false) (none : c.embedded? = none)
    {shape : Descriptor} (static : c.static? = some shape) : shape.derivedType? = .none := by
  rcases embedded?_eq_none_iff.mp none with slot | unnamed
  · rw [plain] at slot
    cases slot
  · exact unnamed shape static

end Component

/-- The components of a type lie inside its instances and do not overlap, and embedded elements are
    as far apart as instances of their type are long. -/
structure DerivedType.LaidOut (ty : DerivedType) : Prop where
  inside : ∀ c ∈ ty.components, c.offset.toNat + c.extent ≤ ty.size.toNat
  disjoint : ty.components.Pairwise fun c d => ∀ offset, c.Covers offset → ¬ d.Covers offset
  elementSize_eq : ∀ c ∈ ty.components, ∀ shape nested, c.embedded? = some (shape, nested) →
    shape.elementSize = nested.size

/-- Components that follow each other are laid out. -/
theorem DerivedType.LaidOut.of_ordered {ty : DerivedType}
    (inside : ∀ c ∈ ty.components, c.offset.toNat + c.extent ≤ ty.size.toNat)
    (ordered : ty.components.Pairwise fun c d => c.offset.toNat + c.extent ≤ d.offset.toNat)
    (sizes : ∀ c ∈ ty.components, c.embedded?.all fun (shape, nested) =>
      shape.elementSize == nested.size) :
    ty.LaidOut where
  inside := inside
  disjoint := ordered.imp fun le offset here there => by
    have := here.2
    have := there.1
    omega
  elementSize_eq := by
    intro c mem shape nested embedded
    have same := sizes c mem
    rw [embedded] at same
    exact eq_of_beq same

/-! ### Elements -/

namespace Descriptor

variable {d : Descriptor} {data e : Address}

/-- Elements lie an element size apart. -/
theorem mem_elementAddresses :
    e ∈ d.elementAddresses data ↔ ∃ j < d.elementCount, e = data + j * d.elementSize.toNat := by
  simp only [elementAddresses, List.mem_map, List.mem_range, eq_comm]

/-- The static descriptor of a row of elements, `stride` bytes apart. -/
def row (ty : DerivedType) (count : Subscript) (stride : UInt64) : Descriptor :=
  { zeroed with
    elementSize := stride, typeCode := .derived, rank := 1, flags := 1, addendumType := some ty,
    dimensionSlots := (Vector.replicate 15 .empty).set 0 ⟨1, count, stride.toInt64⟩ }

/-- A row names the type of its elements. -/
theorem derivedType?_row (ty : DerivedType) (count : Subscript) (stride : UInt64) :
    (row ty count stride).derivedType? = some ty :=
  if_pos (show (1 : UInt8).toNat.testBit 0 = true by decide)

/-- Every element ends where the elements together end, or before. -/
theorem element_le {j count size : Nat} (lt : j < count) : j * size + size ≤ count * size := by
  rw [← Nat.succ_mul]
  exact Nat.mul_le_mul_right size lt

/-- An element lies among the bytes of all elements. -/
theorem exists_offset_of_mem_elementAddresses (mem : e ∈ d.elementAddresses data) :
    ∃ i, e = data + i ∧ i + d.elementSize.toNat ≤ d.elementCount * d.elementSize.toNat := by
  obtain ⟨j, lt, rfl⟩ := mem_elementAddresses.mp mem
  exact ⟨_, rfl, element_le lt⟩

/-- Two elements have no byte in common. -/
theorem pairwise_elementAddresses (d : Descriptor) (data : Address) :
    (d.elementAddresses data).Pairwise fun e f =>
      Address.Apart e d.elementSize.toNat f d.elementSize.toNat := by
  rw [elementAddresses, List.pairwise_map]
  refine List.pairwise_lt_range.imp fun {i j} lt x here there => ?_
  have low := here.2.2
  have high := there.2.1
  have le : i * d.elementSize.toNat + d.elementSize.toNat ≤ j * d.elementSize.toNat := element_le lt
  simp only [Address.offset_add] at low high
  omega

end Descriptor

/-! ### Parts -/

/-- What lies directly inside an instance. -/
inductive Part where
  /-- A descriptor component. -/
  | slot (address : Address)
  /-- One embedded element. -/
  | element (ty : DerivedType) (address : Address)

namespace Part

/-- Where a part begins. -/
def address : Part → Address
  | slot address => address
  | element _ address => address

/-- Bytes of a part. -/
def size : Part → Nat
  | slot _ => descriptorBytes
  | element ty _ => ty.size.toNat

/-- Two parts have no byte in common. -/
def Apart (p q : Part) : Prop :=
  Address.Apart p.address p.size q.address q.size

end Part

/-- Elements that are as large as instances of their type have no byte in common. -/
theorem Descriptor.pairwise_elements {d : Descriptor} {ty : DerivedType}
    (size : d.elementSize = ty.size) (data : Address) :
    ((d.elementAddresses data).map (Part.element ty)).Pairwise Part.Apart := by
  rw [List.pairwise_map]
  refine (d.pairwise_elementAddresses data).imp fun apart => ?_
  rw [size] at apart
  exact apart

/-- The parts of an instance at an address that belong to one component. -/
def Component.parts (c : Component) (instanceAddress : Address) : List Part :=
  if c.isDescriptor then [.slot (instanceAddress + c.offset.toNat)]
  else
    match c.embedded? with
    | none => []
    | some (shape, nested) =>
      (shape.elementAddresses (instanceAddress + c.offset.toNat)).map (.element nested)

/-- The parts of the instance at an address. -/
def DerivedType.parts (ty : DerivedType) (a : Address) : List Part :=
  ty.components.flatMap (·.parts a)

namespace Component

variable {c : Component} {a : Address}

/-- The part of a descriptor component is the descriptor. -/
theorem parts_of_isDescriptor (h : c.isDescriptor = true) :
    c.parts a = [.slot (a + c.offset.toNat)] := if_pos h

/-- The parts of an embedded component are its elements. -/
theorem parts_of_embedded {shape : Descriptor} {ty : DerivedType}
    (h : c.embedded? = some (shape, ty)) :
    c.parts a = (shape.elementAddresses (a + c.offset.toNat)).map (.element ty) := by
  rw [parts, if_neg (by simp [(embedded?_eq_some_iff.mp h).1]), h]

/-- All other components have no parts. -/
theorem parts_of_plain (plain : c.isDescriptor = false) (h : c.embedded? = none) :
    c.parts a = [] := by
  rw [parts, if_neg (by simp [plain]), h]

/-- A component is a descriptor, or it has embedded elements, or it has no parts. -/
theorem parts_cases (c : Component) :
    c.isDescriptor = true ∨ (∃ shape ty, c.embedded? = some (shape, ty)) ∨
      (c.isDescriptor = false ∧ c.embedded? = none) := by
  cases plain : c.isDescriptor with
  | true => exact .inl rfl
  | false =>
    cases h : c.embedded? with
    | none => exact .inr (.inr ⟨rfl, rfl⟩)
    | some inner => exact .inr (.inl ⟨inner.1, inner.2, rfl⟩)

end Component

namespace DerivedType

variable {ty : DerivedType} {a : Address} {p : Part}

/-- A descriptor directly inside an instance is a component. -/
theorem exists_descriptor_of_mem_parts {s : Address} (mem : .slot s ∈ ty.parts a) :
    ∃ c ∈ ty.components, c.isDescriptor = true := by
  obtain ⟨c, there, mem⟩ := List.mem_flatMap.mp mem
  obtain slot | ⟨shape, inner, embedded⟩ | ⟨plain, none⟩ := c.parts_cases
  · exact ⟨c, there, slot⟩
  · rw [Component.parts_of_embedded embedded, List.mem_map] at mem
    obtain ⟨_, _, same⟩ := mem
    cases same
  · rw [Component.parts_of_plain plain none] at mem
    cases mem

/-- The type of an embedded element is a nested type. -/
theorem exists_embedded_of_mem_parts {nested : DerivedType} {e : Address}
    (mem : .element nested e ∈ ty.parts a) :
    ∃ c ∈ ty.components, ∃ shape, c.embedded? = some (shape, nested) := by
  obtain ⟨c, there, mem⟩ := List.mem_flatMap.mp mem
  obtain slot | ⟨shape, inner, embedded⟩ | ⟨plain, none⟩ := c.parts_cases
  · rw [Component.parts_of_isDescriptor slot, List.mem_singleton] at mem
    cases mem
  · rw [Component.parts_of_embedded embedded, List.mem_map] at mem
    obtain ⟨_, _, same⟩ := mem
    cases same
    exact ⟨c, there, shape, embedded⟩
  · rw [Component.parts_of_plain plain none] at mem
    cases mem

/-- The type of a part is smaller than the type. -/
theorem sizeOf_of_mem_parts {nested : DerivedType} {e : Address}
    (mem : .element nested e ∈ ty.parts a) :
    sizeOf nested < sizeOf ty := by
  obtain ⟨c, there, shape, embedded⟩ := exists_embedded_of_mem_parts mem
  exact sizeOf_embedded there embedded

/-- What holds at all depths holds in each part. -/
theorem Throughout.of_mem_parts {P : DerivedType → Prop} (h : ty.Throughout P)
    {nested : DerivedType} {e : Address} (mem : .element nested e ∈ ty.parts a) :
    nested.Throughout P := by
  obtain ⟨c, there, shape, embedded⟩ := exists_embedded_of_mem_parts mem
  exact h.of_embedded there embedded

/-- A part of a component lies inside it. -/
theorem LaidOut.exists_offset_of_mem_component (h : ty.LaidOut) {c : Component}
    (there : c ∈ ty.components) (mem : p ∈ c.parts a) :
    ∃ i, p.address = a + c.offset.toNat + i ∧ i + p.size ≤ c.extent := by
  obtain slot | ⟨shape, inner, embedded⟩ | ⟨plain, none⟩ := c.parts_cases
  · rw [Component.parts_of_isDescriptor slot, List.mem_singleton] at mem
    subst mem
    exact ⟨0, rfl, by simp [Part.size, Component.extent_of_isDescriptor slot]⟩
  · rw [Component.parts_of_embedded embedded, List.mem_map] at mem
    obtain ⟨e, element, rfl⟩ := mem
    obtain ⟨i, begins, le⟩ := Descriptor.exists_offset_of_mem_elementAddresses element
    refine ⟨i, begins, ?_⟩
    rw [Component.extent_of_embedded embedded]
    show _ + inner.size.toNat ≤ _
    rwa [← h.elementSize_eq c there shape inner embedded]
  · rw [Component.parts_of_plain plain none] at mem
    cases mem

/-- A part of an instance lies inside it. -/
theorem LaidOut.exists_offset_of_mem_parts (h : ty.LaidOut) (mem : p ∈ ty.parts a) :
    ∃ i, p.address = a + i ∧ i + p.size ≤ ty.size.toNat := by
  obtain ⟨c, there, mem⟩ := List.mem_flatMap.mp mem
  obtain ⟨i, begins, fits⟩ := h.exists_offset_of_mem_component there mem
  have inside := h.inside c there
  exact ⟨c.offset.toNat + i, by rw [begins, Address.add_add], by omega⟩

/-- A part of an instance lies among the bytes of the instance. -/
theorem LaidOut.inSpan_of_part (h : ty.LaidOut) (part : p ∈ ty.parts a) {b : Address}
    (here : b.InSpan p.address p.size) : b.InSpan a ty.size.toNat := by
  obtain ⟨i, begins, fits⟩ := h.exists_offset_of_mem_parts part
  rw [begins] at here
  exact here.of_sub fits

/-- No two parts of an instance have a byte in common. -/
theorem LaidOut.pairwise_parts (h : ty.LaidOut) (a : Address) :
    (ty.parts a).Pairwise Part.Apart := by
  refine List.pairwise_flatMap.mpr ⟨fun c there => ?_, h.disjoint.imp_of_mem ?_⟩
  · -- Inside one component.
    obtain slot | ⟨shape, inner, embedded⟩ | ⟨plain, none⟩ := c.parts_cases
    · rw [Component.parts_of_isDescriptor slot]
      exact List.pairwise_singleton ..
    · rw [Component.parts_of_embedded embedded]
      exact shape.pairwise_elements (h.elementSize_eq c there shape inner embedded) _
    · rw [Component.parts_of_plain plain none]
      exact List.Pairwise.nil
  · -- In two components.
    intro c d here there disjoint p inC q inD x inP inQ
    obtain ⟨i, beginsP, fitsP⟩ := h.exists_offset_of_mem_component here inC
    obtain ⟨j, beginsQ, fitsQ⟩ := h.exists_offset_of_mem_component there inD
    rw [beginsP] at inP
    rw [beginsQ] at inQ
    obtain ⟨k, lt, rfl⟩ := inP.exists_add
    have low := inQ.2.1
    have high := inQ.2.2
    simp only [Address.offset_add] at low high
    exact disjoint (c.offset.toNat + i + k) ⟨by omega, by omega⟩ ⟨by omega, by omega⟩

/-! ### Slots -/

/-- The descriptors in the instance at an address, at any depth. -/
def slots (ty : DerivedType) (a : Address) : List Address :=
  (ty.parts a).attach.flatMap fun ⟨p, mem⟩ =>
    match p, mem with
    | .slot s, _ => [s]
    | .element nested e, _ => nested.slots e
termination_by sizeOf ty
decreasing_by exact sizeOf_of_mem_parts (by assumption)

end DerivedType

/-- The descriptors in a part, at any depth. -/
def Part.slots : Part → List Address
  | slot s => [s]
  | element nested e => nested.slots e

namespace DerivedType

variable {ty : DerivedType} {a s : Address}

/-- The descriptors of an instance are those of its parts. -/
theorem slots_eq (ty : DerivedType) (a : Address) :
    ty.slots a = (ty.parts a).flatMap Part.slots := by
  have members := List.attach_map_subtype_val (ty.parts a)
  conv_rhs => rw [← members, List.flatMap_map]
  rw [slots]
  congr 1
  ext ⟨p, _⟩ : 1
  cases p <;> rfl

/-- The descriptors in an instance lie inside it. -/
theorem exists_offset_of_mem_slots {ty : DerivedType} {a s : Address} (laid : ty.Throughout LaidOut)
    (mem : s ∈ ty.slots a) : ∃ i, s = a + i ∧ i + descriptorBytes ≤ ty.size.toNat := by
  rw [slots_eq] at mem
  obtain ⟨p, part, mem⟩ := List.mem_flatMap.mp mem
  obtain ⟨i, begins, fits⟩ := laid.own.exists_offset_of_mem_parts part
  cases p with
  | slot _ =>
    obtain rfl := List.mem_singleton.mp mem
    exact ⟨i, begins, fits⟩
  | element nested e =>
    have := sizeOf_of_mem_parts part
    have inside : s ∈ nested.slots e := mem
    obtain ⟨j, rfl, le⟩ := exists_offset_of_mem_slots (laid.of_mem_parts part) inside
    simp only [Part.address, Part.size] at begins fits
    exact ⟨i + j, by rw [begins, Address.add_add], by omega⟩
termination_by sizeOf ty

/-- Where an instance may be stored, there is room for all descriptors in it. -/
theorem spans_of_mem_slots (laid : ty.Throughout LaidOut) {m : Memory}
    (room : m.Admits a ty.size.toNat) (mem : s ∈ ty.slots a) : m.spans s descriptorBytes := by
  obtain ⟨i, rfl, le⟩ := exists_offset_of_mem_slots laid mem
  exact (room.sub le).resolve_left (by decide)

/-- The descriptors in a part lie inside it. -/
theorem exists_offset_of_mem_part_slots {p : Part} (laid : ty.Throughout LaidOut)
    (part : p ∈ ty.parts a) (mem : s ∈ p.slots) :
    ∃ i, s = p.address + i ∧ i + descriptorBytes ≤ p.size := by
  cases p with
  | slot _ =>
    obtain rfl := List.mem_singleton.mp mem
    exact ⟨0, rfl, Nat.le_of_eq (Nat.zero_add _)⟩
  | element nested e =>
    have inside : s ∈ nested.slots e := mem
    exact exists_offset_of_mem_slots (laid.of_mem_parts part) inside

/-- No two descriptors in an instance have a byte in common. -/
theorem pairwise_slots {ty : DerivedType} (laid : ty.Throughout LaidOut) (a : Address) :
    (ty.slots a).Pairwise fun s t => Address.Apart s descriptorBytes t descriptorBytes := by
  rw [slots_eq]
  refine List.pairwise_flatMap.mpr ⟨fun p part => ?_, (laid.own.pairwise_parts a).imp_of_mem ?_⟩
  · cases p with
    | slot _ => exact List.pairwise_singleton ..
    | element nested e =>
      have := sizeOf_of_mem_parts part
      exact pairwise_slots (laid.of_mem_parts part) e
  · intro p q inP inQ apart s memP t memQ x inS inT
    obtain ⟨i, rfl, le⟩ := exists_offset_of_mem_part_slots laid inP memP
    obtain ⟨j, rfl, le'⟩ := exists_offset_of_mem_part_slots laid inQ memQ
    exact apart x (inS.of_sub le) (inT.of_sub le')
termination_by sizeOf ty

end DerivedType

end DerivedTypes
