import DerivedTypes.Proofs.DerivedType.Alignment
import DerivedTypes.Proofs.DerivedType.Parts
import DerivedTypes.Proofs.Descriptor.ExactCount

namespace DerivedTypes

/-!
# What an accepted layout bounds

`DerivedType.checkLayout` compares offsets and sizes of components with the size of the instance,
and from then on offsets are trusted. What it compares is the distance of elements times their
number, so it bounds the elements themselves as far as they are no longer than they are apart.

* `Component.offset_add_le_of_checkLayout`: every component of known size ends inside the instance;
* `DerivedType.embedded_inside_of_checkLayout`: every descriptor and every embedded element of an
  accepted type lies inside the instance;
* `DerivedType.checkLayout_accepts_long_element`: an element that is longer than its distance to the
  next one is accepted, and may end behind the instance.
-/

namespace Component

variable {ty : DerivedType} {c : Component}

/-- A component of an accepted type ends inside the instance, as far as its size is known. -/
theorem offset_add_le_of_checkLayout (accepted : ty.checkLayout = .ok ())
    (mem : c ∈ ty.components) :
    c.offset.toNat + c.storageBytes?.getD 0 ≤ ty.size.toNat :=
  (DerivedType.checkLayout_eq_ok_iff_keepsLayout.mp accepted).inside c mem

/-- A descriptor component takes the bytes of a descriptor. -/
theorem storageBytes?_of_isDescriptor (h : c.isDescriptor = true) :
    c.storageBytes? = some descriptorBytes := by
  simp [storageBytes?, h]

/-- An embedded component takes the bytes of its elements. -/
theorem storageBytes?_of_embedded {shape : Descriptor} (h : c.embedded? = some (shape, ty)) :
    c.storageBytes? = shape.storageBytes? := by
  obtain ⟨plain, static, _⟩ := embedded?_eq_some_iff.mp h
  simp [storageBytes?, plain, static]

end Component

namespace Descriptor

variable {d : Descriptor}

/-- The last element ends where the elements together end, or before. -/
theorem last_element_le {count size stride : Nat} (pos : 0 < count) (short : size ≤ stride) :
    (count - 1) * stride + size ≤ count * stride := by
  obtain ⟨before, rfl⟩ := Nat.exists_eq_succ_of_ne_zero (Nat.ne_of_gt pos)
  rw [Nat.succ_sub_one, Nat.succ_mul]
  omega

/-- The bytes of all elements, where a word can hold their number. -/
theorem storageBytes?_eq_of_lt (pos : 0 < d.exactCount) (some : 0 < d.elementSize.toNat)
    (lt : d.exactCount * d.elementSize.toNat < Word.limit) :
    d.storageBytes? = .some (d.exactCount * d.elementSize.toNat) := by
  have le : d.exactCount ≤ d.exactCount * d.elementSize.toNat := Nat.le_mul_of_pos_right _ some
  rw [storageBytes?, elementCount?_eq_of_pos pos (Nat.lt_of_le_of_lt le lt)]
  exact Word.fit?_eq_some_iff.mpr ⟨rfl, lt⟩

end Descriptor

namespace DerivedType

/-- Every descriptor of an accepted type lies inside the instance. So do the embedded elements of a
    component, if they are no longer than they are apart and a word can hold the bytes of all of
    them: by their exact number, and by the addresses at which default initialization and teardown
    visit them. -/
theorem embedded_inside_of_checkLayout {ty : DerivedType} (accepted : ty.checkLayout = .ok ()) :
    (∀ c ∈ ty.components, c.isDescriptor = true →
      c.offset.toNat + descriptorBytes ≤ ty.size.toNat) ∧
    ∀ c ∈ ty.components, ∀ shape nested, c.embedded? = some (shape, nested) →
      nested.size ≤ shape.elementSize →
      (shape.exactCount * shape.elementSize.toNat < Word.limit →
        shape.exactCount = 0 ∨
          c.offset.toNat + (shape.exactCount - 1) * shape.elementSize.toNat + nested.size.toNat ≤
            ty.size.toNat) ∧
      (shape.storageBytes?.isSome →
        ∀ a : Address, ∀ e ∈ shape.elementAddresses (a + c.offset.toNat),
          ∃ i, e = a + i ∧ i + nested.size.toNat ≤ ty.size.toNat) := by
  constructor
  · intro c mem slot
    have bound := Component.offset_add_le_of_checkLayout accepted mem
    rwa [Component.storageBytes?_of_isDescriptor slot] at bound
  intro c mem shape nested embedded short
  have short : nested.size.toNat ≤ shape.elementSize.toNat := UInt64.le_iff_toNat_le.mp short
  have bound := Component.offset_add_le_of_checkLayout accepted mem
  rw [Component.storageBytes?_of_embedded embedded] at bound
  constructor
  · intro lt
    refine (Nat.eq_zero_or_pos shape.exactCount).imp_right fun pos => ?_
    have last := Descriptor.last_element_le pos short
    rcases Nat.eq_zero_or_pos shape.elementSize.toNat with zero | some
    · -- Elements without bytes take no room, however many there are.
      simp only [zero, Nat.mul_zero] at last ⊢
      omega
    · rw [Descriptor.storageBytes?_eq_of_lt pos some lt, Option.getD_some] at bound
      omega
  · intro known a e element
    obtain ⟨bytes, size⟩ := Option.isSome_iff_exists.mp known
    obtain ⟨count, rfl⟩ := Descriptor.elementCount_eq_of_storageBytes? size
    obtain ⟨j, lt, rfl⟩ := Descriptor.mem_elementAddresses.mp element
    have le : j * shape.elementSize.toNat + shape.elementSize.toNat ≤
        shape.elementCount * shape.elementSize.toNat := Descriptor.element_le lt
    rw [size, Option.getD_some, ← count] at bound
    exact ⟨c.offset.toNat + j * shape.elementSize.toNat, Address.add_add .., by omega⟩

end DerivedType

/-! ### Records with embedded elements -/

namespace Leaves

/-- Sixteen bytes. -/
def leaf : DerivedType :=
  { number := 0, name := "leaf", parameters := [], components := [],
    procedures := [], image := none,
    size := 16, isSequence := false, isBindC := false : DerivedType }.summarize

/-- Three leaves, as far apart as they are long. -/
def three : Descriptor := .row leaf 3 16

/-- One leaf, said to be eight bytes long. -/
def short : Descriptor := .row leaf 1 8

/-- A descriptor, and three leaves behind it. -/
def outer : DerivedType :=
  { number := 1, name := "outer", parameters := [],
    components := [.descriptor "data" .derived 0, .derived "leaves" three 456], procedures := [],
    image := none, size := 504, isSequence := false, isBindC := false : DerivedType }.summarize

/-- An instance of eight bytes for a leaf that is said to be that short. -/
def tight : DerivedType :=
  { number := 1, name := "tight", parameters := [], components := [.derived "leaf" short 0],
    procedures := [], image := none, size := 8, isSequence := false, isBindC := false :
    DerivedType }.summarize

end Leaves

namespace DerivedType

open Leaves

/-- The descriptor and the three leaves of a record that ends with the last of them. -/
theorem three_leaves_inside :
    outer.checkLayout = .ok () ∧ 0 + descriptorBytes ≤ outer.size.toNat ∧
      456 + (three.exactCount - 1) * 16 + leaf.size.toNat ≤ outer.size.toNat ∧
      ∀ a : Address, ∀ e ∈ three.elementAddresses (a + 456),
        ∃ i, e = a + i ∧ i + leaf.size.toNat ≤ outer.size.toNat := by
  have accepted : outer.checkLayout = .ok () := by decide
  obtain ⟨slots, elements⟩ := embedded_inside_of_checkLayout accepted
  have leaves := elements (.derived "leaves" three 456) (by simp [outer]) three leaf rfl (by decide)
  refine ⟨accepted, ?_, ?_, ?_⟩
  · exact slots (.descriptor "data" .derived 0) (by simp [outer]) rfl
  · exact (leaves.1 (by decide)).resolve_left (by decide)
  · exact leaves.2 (by decide)

/-- Sixteen bytes in an instance of eight are accepted, where the static descriptor says that the
    element has eight. -/
theorem checkLayout_accepts_long_element :
    tight.checkLayout = .ok () ∧ tight.components.map (·.embedded?) = [some (short, leaf)] ∧
      tight.components.map (·.offset.toNat) = [0] ∧
      ¬ (short.exactCount = 0 ∨
        0 + (short.exactCount - 1) * short.elementSize.toNat + leaf.size.toNat ≤
        tight.size.toNat) :=
  ⟨by decide, rfl, rfl, by decide⟩

end DerivedType

end DerivedTypes
