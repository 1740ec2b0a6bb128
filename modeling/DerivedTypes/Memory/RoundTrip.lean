import DerivedTypes.Memory.Descriptor

namespace DerivedTypes

/-!
# Reading back stored descriptors

A descriptor stored in memory is read back as it was, if memory finds what it points to
(`Memory.descriptor?_writeDescriptor`). On the way: what is read where something was stored
(`read?_write_self`), or elsewhere (`read?_write_of_disjoint`), and that the fields of a descriptor
do not overlap (`Descriptor.pairwise_fields`).
-/

namespace Memory

/-! ### Several bytes -/

/-- What it takes to read given bytes: room for them, and each in its place. -/
theorem read?_eq_some_iff {m : Memory} {a : Address} {n : Nat} {bytes : List UInt8} :
    m.read? a n = some bytes ↔
      m.spans a n = true ∧ bytes.length = n ∧ ∀ j < n, m.byte? (a + j) = bytes[j]? := by
  unfold read? spans byte?
  rcases h : m.region? a.region with _ | block
  · simp
  · simp only [Option.bind_some, Option.any_some, decide_eq_true_eq, Address.region_add,
      Address.offset_add, h]
    constructor
    · intro read
      split at read
      · next room =>
        obtain rfl := Option.some.inj read
        refine ⟨room, by simp; omega, fun j lt => ?_⟩
        rw [Array.getElem?_toList, Array.getElem?_extract, if_pos (by omega)]
      · cases read
    · rintro ⟨room, length, same⟩
      rw [if_pos room]
      congr 1
      apply List.ext_getElem?
      intro j
      rw [Array.getElem?_toList, Array.getElem?_extract]
      split
      · next lt => rw [same j (by omega)]
      · next ge => rw [List.getElem?_eq_none (by omega)]

/-- What was stored is read back. -/
theorem read?_write_self {m : Memory} {a : Address} {bytes : List UInt8}
    (fits : m.spans a bytes.length) :
    (m.write a bytes).read? a bytes.length = some bytes := by
  refine read?_eq_some_iff.mpr ⟨by rw [spans_write, fits], rfl, fun j lt => ?_⟩
  rw [byte?_write fits, if_pos ⟨rfl, by simp, by simpa using lt⟩]
  simp

/-- A store elsewhere changes nothing that is read. -/
theorem read?_write_of_disjoint {m : Memory} {a b : Address} {n : Nat} {bytes : List UInt8}
    (fits : m.spans b bytes.length)
    (disjoint : a.offset + n ≤ b.offset ∨ b.offset + bytes.length ≤ a.offset) :
    (m.write b bytes).read? a n = m.read? a n := by
  apply Option.ext
  intro read
  simp only [read?_eq_some_iff, spans_write]
  refine and_congr_right fun _ => and_congr_right fun _ => forall_congr' fun j => ?_
  refine imp_congr_right fun lt => ?_
  rw [byte?_write fits, if_neg]
  simp only [Address.offset_add]
  omega

/-! ### Fields -/

/-- Two fields have no byte in common. -/
def FieldsApart (f g : Nat × List UInt8) : Prop :=
  f.1 + f.2.length ≤ g.1 ∨ g.1 + g.2.length ≤ f.1

/-- Fields that lie elsewhere do not show in what is read. -/
theorem read?_writeFields_of_apart {m : Memory} {a : Address} {fields : List (Nat × List UInt8)}
    {i n : Nat} (fit : ∀ f ∈ fields, m.spans (a + f.1) f.2.length)
    (apart : ∀ f ∈ fields, i + n ≤ f.1 ∨ f.1 + f.2.length ≤ i) :
    (m.writeFields a fields).read? (a + i) n = m.read? (a + i) n := by
  induction fields generalizing m with
  | nil => rfl
  | cons f rest ih =>
    have fits := fit f List.mem_cons_self
    have next : (m.write (a + f.1) f.2).writeFields a rest = m.writeFields a (f :: rest) := rfl
    rw [← next, ih (fun g mem => by rw [spans_write]; exact fit g (List.mem_cons_of_mem _ mem))
      fun g mem => apart g (List.mem_cons_of_mem _ mem)]
    apply read?_write_of_disjoint fits
    have := apart f List.mem_cons_self
    simp only [Address.offset_add]
    omega

/-- Each of several stored fields is read back, when no two overlap. -/
theorem read?_writeFields {m : Memory} {a : Address} {fields : List (Nat × List UInt8)}
    {f : Nat × List UInt8} (fit : ∀ f ∈ fields, m.spans (a + f.1) f.2.length)
    (apart : fields.Pairwise FieldsApart) (mem : f ∈ fields) :
    (m.writeFields a fields).read? (a + f.1) f.2.length = some f.2 := by
  induction fields generalizing m with
  | nil => cases mem
  | cons g rest ih =>
    have fits := fit g List.mem_cons_self
    have next : (m.write (a + g.1) g.2).writeFields a rest = m.writeFields a (g :: rest) := rfl
    have fit' : ∀ f ∈ rest, (m.write (a + g.1) g.2).spans (a + f.1) f.2.length := fun h hm => by
      rw [spans_write]
      exact fit h (List.mem_cons_of_mem _ hm)
    obtain ⟨first, others⟩ := List.pairwise_cons.mp apart
    rw [← next]
    rcases List.mem_cons.mp mem with rfl | later
    · rw [read?_writeFields_of_apart fit' fun h hm => first h hm]
      exact read?_write_self fits
    · exact ih fit' others later

end Memory

/-! ### Fields of a descriptor -/

namespace Descriptor

/-- Words lie at the same offsets in all descriptors. -/
theorem map_fst_words (d : Descriptor) (p : Placement) :
    (d.words p).map (·.1) = 0 :: 8 :: (List.range 54).map fun j => 24 + 8 * j := rfl

/-- The offsets and lengths of the fields are the same for all descriptors. -/
theorem map_length_fields (d : Descriptor) (p : Placement) :
    (d.fields p).map (fun f => (f.1, f.2.length)) =
      (16, 5) :: (0, 8) :: (8, 8) :: (List.range 54).map fun j => (24 + 8 * j, 8) := by
  have lengths : (d.fields p).map (fun f => (f.1, f.2.length)) =
      (16, 5) :: ((d.words p).map (·.1)).map fun offset => (offset, 8) := by
    simp [fields, narrowFields, Function.comp_def]
  rw [lengths, map_fst_words]
  rfl

/-- The fields of a descriptor do not overlap. -/
theorem pairwise_fields (d : Descriptor) (p : Placement) :
    (d.fields p).Pairwise Memory.FieldsApart := by
  -- Only offsets and lengths matter, and those are the same for every descriptor.
  have apart : ((d.fields p).map fun f => (f.1, f.2.length)).Pairwise fun f g =>
      f.1 + f.2 ≤ g.1 ∨ g.1 + g.2 ≤ f.1 := by
    rw [map_length_fields]
    decide
  have fields := List.pairwise_map.mp apart
  exact fields

/-- The fields of a descriptor lie in its bytes. -/
theorem field_le {d : Descriptor} {p : Placement} {f : Nat × List UInt8} (mem : f ∈ d.fields p) :
    f.1 + f.2.length ≤ descriptorBytes := by
  have inside : ∀ g ∈ (d.fields p).map fun f => (f.1, f.2.length), g.1 + g.2 ≤ descriptorBytes := by
    rw [map_length_fields]
    decide
  exact inside _ (List.mem_map_of_mem mem)

end Descriptor

namespace Memory

/-- A part of bytes that are in memory is in memory. -/
theorem spans_mono {m : Memory} {a : Address} {n i k : Nat} (wide : m.spans a n) (le : i + k ≤ n) :
    m.spans (a + i) k := by
  obtain ⟨block, live, room⟩ := spans_iff.mp wide
  exact spans_iff.mpr ⟨block, live, by simp only [Address.offset_add]; omega⟩

/-- Every field of a stored descriptor is read back. -/
theorem read?_writeDescriptor {m : Memory} {a : Address} {d : Descriptor} {f : Nat × List UInt8}
    (room : m.spans a descriptorBytes) (mem : f ∈ d.fields m.placement) :
    (m.writeDescriptor a d).read? (a + f.1) f.2.length = some f.2 :=
  read?_writeFields (fun _ hm => spans_mono room (Descriptor.field_le hm)) (d.pairwise_fields _) mem

/-- Each byte of what is read is found at its place. -/
theorem byte?_of_read? {m : Memory} {a : Address} {bytes : List UInt8} {n j : Nat} {value : UInt8}
    (read : m.read? a n = some bytes) (there : bytes[j]? = some value) :
    m.byte? (a + j) = some value := by
  obtain ⟨_, length, same⟩ := read?_eq_some_iff.mp read
  obtain ⟨lt, _⟩ := List.getElem?_eq_some_iff.mp there
  rw [same j (by omega), there]

/-- A word is found where its bytes are read. -/
theorem word?_of_read? {m : Memory} {a : Address} {word : UInt64}
    (read : m.read? a 8 = some (littleEndian 8 word.toNat)) : m.word? a = some word := by
  have fits : word.toNat < byteCapacity 8 := word.toNat_lt
  simp [word?, read, ofLittleEndian_littleEndian, Nat.mod_eq_of_lt fits]

/-- Every word of a stored descriptor is read back. -/
theorem word?_writeDescriptor {m : Memory} {a : Address} {d : Descriptor} {word : Nat × UInt64}
    (room : m.spans a descriptorBytes) (mem : word ∈ d.words m.placement) :
    (m.writeDescriptor a d).word? (a + word.1) = some word.2 := by
  have stored : (word.1, littleEndian 8 word.2.toNat) ∈ d.fields m.placement :=
    List.mem_cons_of_mem _ (List.mem_map_of_mem mem)
  exact word?_of_read? (by simpa using read?_writeDescriptor room stored)

/-- Stores to fields place no region anew. -/
@[simp] theorem placement_writeFields (m : Memory) (a : Address)
    (fields : List (Nat × List UInt8)) :
    (m.writeFields a fields).placement = m.placement := by
  induction fields generalizing m with
  | nil => rfl
  | cons f rest ih =>
    have next : (m.write (a + f.1) f.2).writeFields a rest = m.writeFields a (f :: rest) := rfl
    rw [← next, ih, placement_write]

/-- Stores to fields change no table. -/
@[simp] theorem tables_writeFields (m : Memory) (a : Address) (fields : List (Nat × List UInt8)) :
    (m.writeFields a fields).tables = m.tables := by
  induction fields generalizing m with
  | nil => rfl
  | cons f rest ih =>
    have next : (m.write (a + f.1) f.2).writeFields a rest = m.writeFields a (f :: rest) := rfl
    rw [← next, ih, tables_write]

/-- What stands for a type does not change with the bytes. -/
theorem type?_writeFields (m : Memory) (a : Address) (fields : List (Nat × List UInt8)) :
    (m.writeFields a fields).type? = m.type? := by
  funext word
  simp only [type?, table?, placement_writeFields, tables_writeFields]

/-- Where tables lie apart, the word for one of them stands for it. -/
theorem type?_tableWord {m : Memory} {addendum : Option DerivedType}
    (apart : TablesApart m.placement.table m.tables.size)
    (table : ∀ ty, addendum = some ty → m.tables[ty.number]? = some ty) :
    m.type? (m.placement.tableWord addendum) = some addendum := by
  cases addendum with
  | none => rfl
  | some ty =>
    have there := table ty rfl
    have lt : ty.number < m.tables.size := (Array.getElem?_eq_some_iff.mp there).1
    -- The search ends at the number of the table, since no other one lies at its place.
    have found : (List.range m.tables.size).find?
        (m.placement.table · = m.placement.table ty.number) =
        some ty.number := by
      refine List.find?_range_eq_some.mpr ⟨by simp, List.mem_range.mpr lt, fun j earlier => ?_⟩
      have other : m.placement.table j ≠ m.placement.table ty.number := fun same =>
        Nat.ne_of_lt earlier (apart.injective j (Nat.lt_trans earlier lt) _ lt same)
      simpa using other
    rw [type?, Placement.tableWord, if_neg (apart.not_null _ lt), table?, found, Option.bind_some,
      there, Option.map_some]

/-- A stored descriptor is read back. -/
theorem descriptor?_writeDescriptor {m : Memory} {a : Address} {d : Descriptor}
    (room : m.spans a descriptorBytes) (found : m.Finds d) :
    (m.writeDescriptor a d).descriptor? a = some d := by
  -- The five single bytes.
  have bytes : (m.writeDescriptor a d).read? (a + 16) 5 = some d.narrowFields :=
    read?_writeDescriptor (f := (16, d.narrowFields)) room List.mem_cons_self
  have category := byte?_of_read? bytes (j := 0) rfl
  have kind := byte?_of_read? bytes (j := 1) rfl
  have rank := byte?_of_read? bytes (j := 2) rfl
  have attr := byte?_of_read? bytes (j := 3) rfl
  have flags := byte?_of_read? bytes (j := 4) rfl
  -- The words: base, element size, dimensions, type and LEN values.
  have word {w : Nat × UInt64} (mem : w ∈ d.words m.placement) := word?_writeDescriptor room mem
  have base : (m.writeDescriptor a d).word? (a + 0) = some (m.placement.addressWord d.base) :=
    word (w := (0, m.placement.addressWord d.base)) (by simp [Descriptor.words])
  have size : (m.writeDescriptor a d).word? (a + 8) = some d.elementSize :=
    word (w := (8, d.elementSize)) (by simp [Descriptor.words])
  have type : (m.writeDescriptor a d).word? (a + 384) =
      some (m.placement.tableWord d.addendumType) :=
    word (w := (384, m.placement.tableWord d.addendumType)) (by simp [Descriptor.words])
  have dims (j : Fin 15) :
      (m.writeDescriptor a d).dimension? (a + 24 + 24 * j.val) = some d.dimensionSlots[j] := by
    have mem {w : Nat × UInt64} (mem : w ∈ d.dimensionWords j) : w ∈ d.words m.placement := by
      simp only [Descriptor.words, List.mem_append, List.mem_cons, List.mem_flatMap]
      exact .inl (.inr (.inr ⟨j, List.mem_finRange j, mem⟩))
    have lower := word (mem (List.mem_cons_self ..))
    have extent := word (mem (List.mem_cons_of_mem _ (List.mem_cons_self ..)))
    have stride :=
      word (mem (List.mem_cons_of_mem _ (List.mem_cons_of_mem _ (List.mem_cons_self ..))))
    have second : 32 + 24 * j.val = 24 + (24 * j.val + 8) := by omega
    have third : 40 + 24 * j.val = 24 + (24 * j.val + 16) := by omega
    simp only [second, third] at extent stride
    simp [dimension?, subscript?, Address.add_add, Nat.add_assoc, lower, extent, stride]
  have lens (j : Fin 8) :
      (m.writeDescriptor a d).subscript? (a + 392 + 8 * j.val) = some d.lenValues[j] := by
    have mem : d.lenWord j ∈ d.words m.placement := by simp [Descriptor.words]
    have value := word mem
    simp only [Descriptor.lenWord] at value
    simp [subscript?, Address.add_add, value]
  -- What the two pointers point to.
  have placement : (m.writeDescriptor a d).placement = m.placement := placement_writeFields ..
  have types : (m.writeDescriptor a d).type? = m.type? := type?_writeFields ..
  have target := Placement.address?_addressWord found.base
  have table := found.type
  -- All fields together are the descriptor.
  simp only [Address.add_add, Address.add_zero] at base category kind rank attr flags
  rw [descriptor?]
  simp only [Option.bind_eq_bind, Option.pure_def, Option.bind_some, base, size, type, category,
    kind, rank, attr, flags, placement, target, types, table, Category.ofByte?_toByte,
    Attribute.ofByte?_toByte, collect?_eq_some_iff.mpr dims, collect?_eq_some_iff.mpr lens]
  cases d
  rfl

end Memory

end DerivedTypes
