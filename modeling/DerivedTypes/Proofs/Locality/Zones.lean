import DerivedTypes.Proofs.Locality.Location
import DerivedTypes.Proofs.Ownership.Releases

namespace DerivedTypes

/-!
# Zones of instances

The bytes of an instance are a zone, and so are those of the elements that a descriptor describes.
What lies inside an instance is a part of its zone, and keeps away from the descriptors of all other
parts.

* `Descriptor.zone_element_within`: the zone of an element is a part of that of the array;
* `DerivedType.zone_embedded_within`: the zone of embedded elements is a part of that of the
  instance;
* `DerivedType.zone_part_within`, `DerivedType.zone_parent_within`: so are the zones of single
  elements, and of the instance as one of the parent.
-/

/-- A zone lies in another one, and each descriptor there is one of its own or lies apart. -/
theorem Zone.Within.of_slots {z c : Zone}
    (offset : ∃ i, z.address = c.address + i ∧ i + z.size ≤ c.size)
    (slots : ∀ s ∈ c.slots, s ∈ z.slots ∨ Address.Apart z.address z.size s descriptorBytes) :
    z.Within c where
  exists_offset := offset
  writable := by
    rintro l ⟨here, out⟩
    obtain ⟨i, begins, fits⟩ := offset
    refine ⟨?_, fun s mem inside => ?_⟩
    · rw [Zone.span, begins] at here
      exact Location.span_subset fits here
    · rcases slots s mem with own | apart
      · exact out s own inside
      · obtain ⟨b, rfl, there⟩ := Location.mem_span here
        exact apart b there inside

/-- All descriptors of a zone lie among its bytes. -/
def Zone.Closed (z : Zone) : Prop :=
  ∀ s ∈ z.slots, ∃ i, s = z.address + i ∧ i + descriptorBytes ≤ z.size

/-- The descriptors of a zone lie in its region. -/
theorem Zone.Closed.region {z : Zone} (h : z.Closed) {s : Address} (mem : s ∈ z.slots) :
    s.region = z.address.region := by
  obtain ⟨i, rfl, _⟩ := h s mem
  rfl

/-! ### Arrays -/

namespace Descriptor

/-- The zone of the elements that a descriptor describes, wherever they are. -/
def zone (d : Descriptor) (data : Address) : Zone where
  address := data
  size := d.elementCount * d.elementSize.toNat
  slots := ({ d with base := some data } : Descriptor).slots

variable {d : Descriptor} {ty : DerivedType} {data e : Address}

/-- The descriptors in an array lie among its bytes. -/
theorem zone_closed (typed : d.Typed) (data : Address) : (d.zone data).Closed := fun _ mem =>
  exists_offset_of_mem_slots (d := { d with base := some data }) typed rfl mem

/-- The descriptors in an array are those in its elements. -/
theorem slots_zone (named : d.derivedType? = some ty) (data : Address) :
    (d.zone data).slots = (d.elementAddresses data).flatMap ty.slots := by
  show ({ d with base := some data } : Descriptor).slots = _
  rw [slots_of_base rfl,
    show ({ d with base := some data } : Descriptor).derivedType? = some ty from named]
  rfl

end Descriptor

namespace DerivedType

/-- The zone of an instance. -/
def zone (ty : DerivedType) (a : Address) : Zone where
  address := a
  size := ty.size.toNat
  slots := ty.slots a

/-- The descriptors in an instance lie among its bytes. -/
theorem zone_closed {ty : DerivedType} (laid : ty.Throughout LaidOut) (a : Address) :
    (ty.zone a).Closed :=
  fun _ mem => exists_offset_of_mem_slots laid mem

end DerivedType

/-- An element is a part of the array. -/
theorem Descriptor.zone_element_within {d : Descriptor} {ty : DerivedType} {data e : Address}
    (typed : d.Typed) (named : d.derivedType? = some ty) (mem : e ∈ d.elementAddresses data) :
    (ty.zone e).Within (d.zone data) := by
  have same := (typed ty named).1
  refine .of_slots ?_ fun s slot => ?_
  · obtain ⟨i, begins, le⟩ := exists_offset_of_mem_elementAddresses mem
    refine ⟨i, begins, ?_⟩
    show _ + ty.size.toNat ≤ _
    rwa [← same]
  · rw [slots_zone named] at slot
    obtain ⟨f, element, slot⟩ := List.mem_flatMap.mp slot
    by_cases eq : e = f
    · subst eq
      exact .inl slot
    · -- The descriptors of another element lie in that element.
      right
      intro x here inside
      obtain ⟨i, rfl, fits⟩ :=
        DerivedType.exists_offset_of_mem_slots (laidOut_of_typed typed named) slot
      have apart := Address.apart_of_pairwise (d.pairwise_elementAddresses data) mem element eq
      rw [same] at apart
      exact apart x here (inside.of_sub fits)

/-! ### Parts of instances -/

namespace DerivedType

variable {ty nested parent : DerivedType} {c : Component} {shape : Descriptor} {a e : Address}

/-- The descriptors in a component lie among its bytes. -/
theorem exists_offset_of_mem_component_slots (laid : ty.Throughout LaidOut)
    (mem : c ∈ ty.components) {s : Address} (slot : s ∈ c.slots a) :
    ∃ i, s = a + c.offset.toNat + i ∧ i + descriptorBytes ≤ c.extent := by
  obtain ⟨p, part, slot⟩ := List.mem_flatMap.mp slot
  obtain ⟨i, begins, fits⟩ := laid.own.exists_offset_of_mem_component mem part
  obtain ⟨j, rfl, le⟩ :=
    exists_offset_of_mem_part_slots laid (List.mem_flatMap.mpr ⟨c, mem, part⟩) slot
  exact ⟨i + j, by rw [begins, Address.add_add], by omega⟩

/-- A byte of one component belongs to no other. -/
theorem LaidOut.not_covers (laid : ty.LaidOut) {c d : Component} (mem : c ∈ ty.components)
    (mem' : d ∈ ty.components) (ne : c ≠ d) {offset : Nat} (here : c.Covers offset) :
    ¬ d.Covers offset := by
  have symm : Std.Symm fun c d : Component => ∀ offset, c.Covers offset → ¬ d.Covers offset :=
    ⟨fun _ _ apart offset there here => apart offset here there⟩
  exact laid.disjoint.forall mem mem' ne offset here

/-- Static descriptors of embedded components say what their elements are. -/
theorem typed_of_embedded (sound : ty.Throughout TeardownSound) (mem : c ∈ ty.components)
    (embedded : c.embedded? = some (shape, nested)) : shape.Typed := by
  intro inner named
  obtain ⟨_, _, named'⟩ := Component.embedded?_eq_some_iff.mp embedded
  obtain rfl := Option.some.inj (named'.symm.trans named)
  exact ⟨sound.own.laidOut.elementSize_eq c mem shape nested embedded,
    sound.of_embedded mem embedded⟩

/-- Embedded elements are a part of the instance. -/
theorem zone_embedded_within (laid : ty.Throughout LaidOut) (mem : c ∈ ty.components)
    (embedded : c.embedded? = some (shape, nested)) (a : Address) :
    (shape.zone (a + c.offset.toNat)).Within (ty.zone a) := by
  have extent : c.extent = shape.elementCount * shape.elementSize.toNat :=
    Component.extent_of_embedded embedded
  have inside := laid.own.inside c mem
  obtain ⟨_, _, named⟩ := Component.embedded?_eq_some_iff.mp embedded
  refine .of_slots ⟨c.offset.toNat, rfl, ?_⟩ fun s slot => ?_
  · show c.offset.toNat + shape.elementCount * shape.elementSize.toNat ≤ ty.size.toNat
    rwa [← extent]
  · have slot : s ∈ ty.slots a := slot
    rw [slots_eq_components] at slot
    obtain ⟨d, mem', slot⟩ := List.mem_flatMap.mp slot
    by_cases eq : c = d
    · subst eq
      rw [Component.slots_of_embedded embedded] at slot
      rw [Descriptor.slots_zone named]
      exact .inl slot
    · -- The descriptors in another component lie in that one, and no byte belongs to two of them.
      right
      intro x here there
      obtain ⟨i, rfl, fits⟩ := exists_offset_of_mem_component_slots laid mem' slot
      obtain ⟨j, lt, rfl⟩ := Address.InSpan.exists_add (a := a + c.offset.toNat) here
      have low := there.2.1
      have high := there.2.2
      simp only [Address.offset_add] at low high
      have covered : c.Covers (c.offset.toNat + j) :=
        ⟨by omega, by rw [extent]; exact Nat.add_lt_add_left lt _⟩
      exact laid.own.not_covers mem mem' eq covered ⟨by omega, by omega⟩

/-- An embedded element is a part of the instance. -/
theorem zone_part_within (sound : ty.Throughout TeardownSound)
    (part : .element nested e ∈ ty.parts a) :
    (nested.zone e).Within (ty.zone a) := by
  obtain ⟨c, mem, part⟩ := List.mem_flatMap.mp part
  obtain slot | ⟨shape, inner, embedded⟩ | ⟨plain, none⟩ := c.parts_cases
  · rw [Component.parts_of_isDescriptor slot, List.mem_singleton] at part
    cases part
  · rw [Component.parts_of_embedded embedded, List.mem_map] at part
    obtain ⟨_, element, same⟩ := part
    cases same
    obtain ⟨_, _, named⟩ := Component.embedded?_eq_some_iff.mp embedded
    exact (Descriptor.zone_element_within (typed_of_embedded sound mem embedded)
      named element).trans
      (zone_embedded_within (sound.imp fun _ sound => sound.laidOut) mem embedded a)
  · rw [Component.parts_of_plain plain none] at part
    cases part

/-- An instance is one of the parent type as well, which is a part of it. -/
theorem zone_parent_within (sound : ty.Throughout TeardownSound) (extended : ty.isExtension = true)
    (named : ty.parent = .ok parent) (a : Address) : (parent.zone a).Within (ty.zone a) := by
  obtain ⟨c, rest, shape, parent', components, _, offset, embedded, one, named'⟩ :=
    sound.own.parentFirst.exists_parent extended
  obtain rfl := Except.ok.inj (named.symm.trans named')
  refine zone_part_within sound ?_
  refine List.mem_flatMap.mpr ⟨c, by rw [components]; exact List.mem_cons_self, ?_⟩
  rw [Component.parts_of_embedded embedded, Descriptor.elementAddresses, one, offset]
  simp

end DerivedType

end DerivedTypes
