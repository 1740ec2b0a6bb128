import DerivedTypes.Memory.Basic

namespace DerivedTypes

/-!
# Descriptors in memory

A descriptor takes 456 bytes. From the first byte on: base pointer (8), element size (8), category,
kind, rank, attribute and flags (1 each), padding (3), fifteen dimensions of three words (24 each),
pointer to the type of the addendum (8), eight LEN values (8 each). Words are little-endian; a
pointer is null when its word is zero.

* `Memory.descriptor?` reads a descriptor;
* `Memory.writeDescriptor` stores one and leaves the padding alone;
* `Memory.Finds`: what memory has to know so that the stored descriptor can be read again.
-/

namespace Memory

/-! ### Words and pointers -/

/-- The 64-bit word at an address. -/
def word? (m : Memory) (a : Address) : Option UInt64 :=
  (m.read? a 8).map fun bytes => .ofNat (ofLittleEndian bytes)

/-- The signed word at an address. -/
def subscript? (m : Memory) (a : Address) : Option Subscript :=
  (m.word? a).map (·.toInt64)

/-- The table that a word points to. -/
def table? (m : Memory) (word : UInt64) : Option DerivedType :=
  ((List.range m.tables.size).find? (m.placement.table · = word)).bind (m.tables[·]?)

/-- The type that a word stands for, null or not. -/
def type? (m : Memory) (word : UInt64) : Option (Option DerivedType) :=
  if word = 0 then some none else (m.table? word).map some

/-! ### Descriptors -/

/-- The dimension at an address. -/
def dimension? (m : Memory) (a : Address) : Option Dimension := do
  return ⟨← m.subscript? a, ← m.subscript? (a + 8), ← m.subscript? (a + 16)⟩

end Memory

/-- All results of a function on positions, if every position has one. -/
def collect? {α : Type} {n : Nat} (f : Fin n → Option α) : Option (Vector α n) :=
  if h : ∀ i, (f i).isSome then some (.ofFn fun i => (f i).get (h i)) else none

/-- All values are there exactly if they are the items of the vector. -/
theorem collect?_eq_some_iff {α : Type} {n : Nat} {f : Fin n → Option α} {v : Vector α n} :
    collect? f = some v ↔ ∀ i : Fin n, f i = some v[i] := by
  unfold collect?
  constructor
  · intro h i
    split at h
    · obtain rfl := Option.some.inj h
      simp
    · cases h
  · intro h
    have present : ∀ i, (f i).isSome := fun i => by simp [h i]
    rw [dif_pos present]
    congr 1
    ext i hi
    simp [h ⟨i, hi⟩]

namespace Memory

/-- The descriptor whose bytes begin at an address. -/
def descriptor? (m : Memory) (a : Address) : Option Descriptor := do
  return {
    base := m.placement.address? (← m.word? a)
    elementSize := ← m.word? (a + 8)
    typeCode := ⟨← Category.ofByte? (← m.byte? (a + 16)), ← m.byte? (a + 17)⟩
    rank := ← m.byte? (a + 18)
    attr := ← Attribute.ofByte? (← m.byte? (a + 19))
    flags := ← m.byte? (a + 20)
    dimensionSlots := ← collect? fun j => m.dimension? (a + 24 + 24 * j.val)
    addendumType := ← m.type? (← m.word? (a + 384))
    lenValues := ← collect? fun j => m.subscript? (a + 392 + 8 * j.val) }

end Memory

namespace Descriptor

/-- The words of a dimension, with their offsets. -/
def dimensionWords (d : Descriptor) (j : Fin 15) : List (Nat × UInt64) :=
  let dim := d.dimensionSlots[j]
  [(24 + 24 * j.val, dim.lower.toUInt64), (32 + 24 * j.val, dim.extent.toUInt64),
    (40 + 24 * j.val, dim.byteStride.toUInt64)]

/-- The word of a LEN value, with its offset. -/
def lenWord (d : Descriptor) (j : Fin 8) : Nat × UInt64 :=
  (392 + 8 * j.val, d.lenValues[j].toUInt64)

/-- All words, with their offsets. -/
def words (d : Descriptor) (p : Placement) : List (Nat × UInt64) :=
  (0, p.addressWord d.base) :: (8, d.elementSize) :: (List.finRange 15).flatMap d.dimensionWords ++
  (384, p.tableWord d.addendumType) :: (List.finRange 8).map d.lenWord

/-- The fields that are single bytes, from category to flags. -/
def narrowFields (d : Descriptor) : List UInt8 :=
  [d.typeCode.category.toByte, d.typeCode.kind, d.rank, d.attr.toByte, d.flags]

/-- The bytes of all fields, with their offsets. -/
def fields (d : Descriptor) (p : Placement) : List (Nat × List UInt8) :=
  (16, d.narrowFields) :: (d.words p).map fun (offset, word) => (offset, littleEndian 8 word.toNat)

end Descriptor

namespace Memory

/-- Stores bytes at offsets from an address. -/
def writeFields (m : Memory) (a : Address) (fields : List (Nat × List UInt8)) : Memory :=
  fields.foldl (fun m (offset, bytes) => m.write (a + offset) bytes) m

/-- Stores a descriptor, padding excepted. -/
def writeDescriptor (m : Memory) (a : Address) (d : Descriptor) : Memory :=
  m.writeFields a (d.fields m.placement)

/-- Sets the base address of the descriptor at an address to null. -/
def clearBase (m : Memory) (a : Address) : Memory :=
  m.fillZero a 8

/-- What a descriptor points to is found by the words of its pointers. -/
structure Finds (m : Memory) (d : Descriptor) : Prop where
  base : ∀ a, d.base = some a → m.placement.Locates a
  type : m.type? (m.placement.tableWord d.addendumType) = some d.addendumType

/-- Bytes of a descriptor up to its attribute, which tell whether it owns storage. -/
def ownershipBytes : Nat := 20

/-- The descriptor at an address is allocatable and has storage. Nothing else of it is looked at. -/
def ownsStorage (m : Memory) (a : Address) : Bool :=
  m.byte? (a + 19) == some Attribute.allocatable.toByte && m.word? a != some 0

end Memory

end DerivedTypes
