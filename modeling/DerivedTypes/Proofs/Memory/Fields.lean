import DerivedTypes.Proofs.Memory.Frame

namespace DerivedTypes

/-!
# Descriptors field by field

A descriptor is read one field after the other, so it is there exactly if each field is
(`Memory.descriptor?_eq_some_iff`). Memory that differs in the base, in the flags or in the tables
therefore has a descriptor that differs in the same fields (`Memory.HasDescriptor.congr`).
-/

namespace Memory

/-- The fields of a descriptor, each one where it lies. -/
structure HasDescriptor (m : Memory) (a : Address) (d : Descriptor) : Prop where
  base : (m.word? a).map m.placement.address? = some d.base
  elementSize : m.word? (a + 8) = some d.elementSize
  category : (m.byte? (a + 16)).bind Category.ofByte? = some d.typeCode.category
  kind : m.byte? (a + 17) = some d.typeCode.kind
  rank : m.byte? (a + 18) = some d.rank
  attr : (m.byte? (a + 19)).bind Attribute.ofByte? = some d.attr
  flags : m.byte? (a + 20) = some d.flags
  dimension : ∀ j : Fin 15, m.dimension? (a + 24 + 24 * j.val) = some (d.dimensionSlots.get j)
  type : (m.word? (a + 384)).bind m.type? = some d.addendumType
  lenValue : ∀ j : Fin 8, m.subscript? (a + 392 + 8 * j.val) = some (d.lenValues.get j)

/-- A descriptor is there exactly if all its fields are. -/
theorem descriptor?_eq_some_iff {m : Memory} {a : Address} {d : Descriptor} :
    m.descriptor? a = some d ↔ m.HasDescriptor a d := by
  constructor
  · intro there
    -- One field after the other, in the order in which they are read.
    obtain ⟨base, word, there⟩ := Option.bind_eq_some_iff.mp there
    obtain ⟨elementSize, size, there⟩ := Option.bind_eq_some_iff.mp there
    obtain ⟨b, category, there⟩ := Option.bind_eq_some_iff.mp there
    obtain ⟨c, decoded, there⟩ := Option.bind_eq_some_iff.mp there
    obtain ⟨kind, kindRead, there⟩ := Option.bind_eq_some_iff.mp there
    obtain ⟨rank, rankRead, there⟩ := Option.bind_eq_some_iff.mp there
    obtain ⟨b', attr, there⟩ := Option.bind_eq_some_iff.mp there
    obtain ⟨c', decoded', there⟩ := Option.bind_eq_some_iff.mp there
    obtain ⟨flags, flagsRead, there⟩ := Option.bind_eq_some_iff.mp there
    obtain ⟨dims, dimsRead, there⟩ := Option.bind_eq_some_iff.mp there
    obtain ⟨link, linkRead, there⟩ := Option.bind_eq_some_iff.mp there
    obtain ⟨type, typeRead, there⟩ := Option.bind_eq_some_iff.mp there
    obtain ⟨lens, lensRead, there⟩ := Option.bind_eq_some_iff.mp there
    obtain rfl := Option.some.inj there
    exact {
      base := by rw [word, Option.map_some]
      elementSize := size
      category := by rw [category, Option.bind_some, decoded]
      kind := kindRead
      rank := rankRead
      attr := by rw [attr, Option.bind_some, decoded']
      flags := flagsRead
      dimension := collect?_eq_some_iff.mp dimsRead
      type := by rw [linkRead, Option.bind_some, typeRead]
      lenValue := collect?_eq_some_iff.mp lensRead }
  · intro h
    obtain ⟨base, word, same⟩ := Option.map_eq_some_iff.mp h.base
    obtain ⟨b, category, decoded⟩ := Option.bind_eq_some_iff.mp h.category
    obtain ⟨b', attr, decoded'⟩ := Option.bind_eq_some_iff.mp h.attr
    obtain ⟨link, linkRead, typeRead⟩ := Option.bind_eq_some_iff.mp h.type
    simp only [descriptor?, Option.bind_eq_bind, Option.bind_some, Option.pure_def, word,
      h.elementSize, category, decoded, h.kind, h.rank, attr, decoded', h.flags, linkRead, typeRead,
      same, collect?_eq_some_iff.mpr h.dimension, collect?_eq_some_iff.mpr h.lenValue]
    cases d
    rfl

/-- Where a descriptor can be read, all of its bytes lie in one live region. -/
theorem spans_of_descriptor? {m : Memory} {a : Address} {d : Descriptor}
    (there : m.descriptor? a = some d) :
    m.spans a descriptorBytes := by
  -- Its last eight bytes are the last LEN value, and a region has no gaps.
  have last := (descriptor?_eq_some_iff.mp there).lenValue 7
  rw [subscript?, word?, Option.map_map] at last
  obtain ⟨bytes, read, _⟩ := Option.map_eq_some_iff.mp last
  obtain ⟨block, live, room⟩ := spans_iff.mp (read?_eq_some_iff.mp read).1
  refine spans_iff.mpr ⟨block, live, ?_⟩
  simp only [Address.offset_add] at room
  simp only [descriptorBytes]
  omega

/-- The bytes of a memory with the tables and the places of another one. -/
def withTablesOf (m' m : Memory) : Memory :=
  { m' with placement := m.placement, tables := m.tables }

namespace HasDescriptor

variable {m m' : Memory} {a : Address} {d : Descriptor}

/-- Another base, other flags or another type in memory are what becomes of the descriptor, if no
    other byte has changed. -/
theorem congr (h : m.HasDescriptor a d) (room : m.spans a descriptorBytes)
    (room' : m'.spans a descriptorBytes)
    (same : ∀ i, 8 ≤ i → i < descriptorBytes → i ≠ 20 → m'.byte? (a + i) = m.byte? (a + i))
    {base : Option Address} {flags : UInt8} {type : Option DerivedType}
    (newBase : (m'.word? a).map m'.placement.address? = some base)
    (newFlags : m'.byte? (a + 20) = some flags)
    (newType : (m.word? (a + 384)).bind m'.type? = some type) :
    m'.HasDescriptor a { d with base := base, flags := flags, addendumType := type } := by
  -- What is read from bytes alone depends neither on the tables nor on their places.
  have agrees {i n : Nat} (low : 8 ≤ i) (high : i + n ≤ descriptorBytes)
      (apart : i + n ≤ 20 ∨ 20 < i) :
      m.Agrees (m'.withTablesOf m) (a + i) n := by
    refine ⟨rfl, rfl, ?_, fun b inside => ?_⟩
    · exact (spans_mono room' high).trans (spans_mono room high).symm
    · obtain ⟨j, lt, rfl⟩ := inside.exists_add
      rw [Address.add_add]
      exact same (i + j) (by omega) (by omega) (by omega)
  have word {i : Nat} (low : 8 ≤ i) (high : i + 8 ≤ descriptorBytes) (apart : i + 8 ≤ 20 ∨ 20 < i) :
      m'.word? (a + i) = m.word? (a + i) := (agrees low high apart).word?
  have byte {i : Nat} (low : 8 ≤ i) (high : i < 20) : m'.byte? (a + i) = m.byte? (a + i) :=
    same i low (by simp only [descriptorBytes]; omega) (by omega)
  have size : descriptorBytes = 456 := rfl
  exact {
    base := newBase
    elementSize := by rw [word (by omega) (by omega) (by omega), h.elementSize]
    category := by rw [byte (by omega) (by omega), h.category]
    kind := by rw [byte (by omega) (by omega), h.kind]
    rank := by rw [byte (by omega) (by omega), h.rank]
    attr := by rw [byte (by omega) (by omega), h.attr]
    flags := newFlags
    dimension := fun j => by
      rw [← h.dimension j, Address.add_add]
      exact (agrees (by omega) (by omega) (by omega)).dimension? (spans_mono room (by omega))
    type := by rw [word (by omega) (by omega) (by omega), newType]
    lenValue := fun j => by
      rw [← h.lenValue j, Address.add_add]
      exact (agrees (by omega) (by omega) (by omega)).subscript? }

end HasDescriptor

end Memory

end DerivedTypes
