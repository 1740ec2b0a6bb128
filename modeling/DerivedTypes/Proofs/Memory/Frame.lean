import DerivedTypes.Memory.RoundTrip
import Mathlib.Algebra.BigOperators.Group.List.Basic
import Mathlib.Algebra.Order.BigOperators.Group.Finset

namespace DerivedTypes

/-!
# What changes in memory, and what stays

* `Address.InSpan`: an address lies among the `n` bytes from another one on;
* `Memory.Agrees`: two memories hold the same bytes in a span. Whatever is read from there is then
  the same, a descriptor included (`Agrees.descriptor?`);
* `Memory.SameShape`: two memories differ in nothing but the bytes of regions;
* `region?_allocate`, `region?_release`, `byte?_fillZero`, `agrees_writeDescriptor`: which part of
  memory an operation changes;
* `descriptor?_of_zeros`: zeros are a zeroed descriptor;
* `length_le_byteCount`: memory has at least as many bytes as blocks that are not empty.
-/

namespace Address

/-- An address lies among the `n` bytes from `a` on. -/
def InSpan (b a : Address) (n : Nat) : Prop :=
  b.region = a.region ∧ a.offset ≤ b.offset ∧ b.offset < a.offset + n

/-- Addresses not too far behind the first one are in its span. -/
theorem inSpan_add {a : Address} {j n : Nat} (lt : j < n) : (a + j).InSpan a n :=
  ⟨rfl, by simp, by simpa using lt⟩

/-- Each address in a span lies so many bytes behind the first one. -/
theorem InSpan.exists_add {a b : Address} {n : Nat} (h : b.InSpan a n) : ∃ j < n, b = a + j := by
  obtain ⟨region, le, lt⟩ := h
  refine ⟨b.offset - a.offset, by omega, ?_⟩
  cases b
  cases a
  simp only [HAdd.hAdd, advance, mk.injEq] at *
  exact ⟨region, (Nat.add_sub_cancel' le).symm⟩

/-- A part of a span lies in it. -/
theorem InSpan.of_sub {a b : Address} {i k n : Nat} (h : b.InSpan (a + i) k) (le : i + k ≤ n) :
    b.InSpan a n := by
  obtain ⟨region, low, high⟩ := h
  simp only [region_add, offset_add] at region low high
  exact ⟨region, by omega, by omega⟩

/-- A shorter span from the same address on lies in the longer one. -/
theorem InSpan.of_le {a b : Address} {k n : Nat} (h : b.InSpan a k) (le : k ≤ n) : b.InSpan a n :=
  h.of_sub (i := 0) (by omega)

/-- An empty span has no addresses. -/
theorem not_inSpan_zero {a b : Address} : ¬ b.InSpan a 0 := fun h => by
  have := h.2.1
  have := h.2.2
  omega

/-- Two spans have no address in common. -/
def Apart (a : Address) (n : Nat) (b : Address) (k : Nat) : Prop :=
  ∀ x : Address, x.InSpan a n → ¬ x.InSpan b k

/-- It does not matter which span comes first. -/
theorem Apart.symm {a b : Address} {n k : Nat} (h : Apart a n b k) : Apart b k a n :=
  fun x there here => h x here there

/-- Among spans that lie apart in pairs, each one lies apart from all others. -/
theorem apart_of_pairwise {spans : List Address} {n : Nat}
    (apart : spans.Pairwise fun a b => Apart a n b n) {a b : Address} (memA : a ∈ spans)
    (memB : b ∈ spans) (ne : a ≠ b) : Apart a n b n := by
  have symm : Std.Symm fun a b => Apart a n b n := ⟨fun _ _ apart => apart.symm⟩
  exact apart.forall memA memB ne

/-- Spans in different regions lie apart. -/
theorem apart_of_region_ne {a b : Address} (n k : Nat) (ne : a.region ≠ b.region) : Apart a n b k :=
  fun _ here there => ne (here.1.symm.trans there.1)

end Address

namespace Memory

/-! ### Agreement -/

/-- What is read depends on the bytes of the span and on whether they are there. -/
theorem read?_congr {m m' : Memory} {a : Address} {n : Nat} (spans : m'.spans a n = m.spans a n)
    (bytes : ∀ b : Address, b.InSpan a n → m'.byte? b = m.byte? b) :
    m'.read? a n = m.read? a n := by
  apply Option.ext
  intro contents
  rw [read?_eq_some_iff, read?_eq_some_iff, spans]
  refine and_congr_right fun _ => and_congr_right fun _ => forall_congr' fun j => ?_
  exact imp_congr_right fun lt => by rw [bytes _ (Address.inSpan_add lt)]

/-- Two memories have the same tables at the same places, and the same bytes in a span. -/
structure Agrees (m m' : Memory) (a : Address) (n : Nat) : Prop where
  placement : m'.placement = m.placement
  tables : m'.tables = m.tables
  spans : m'.spans a n = m.spans a n
  byte? : ∀ b : Address, b.InSpan a n → m'.byte? b = m.byte? b

namespace Agrees

variable {m m' : Memory} {a : Address} {n : Nat}

/-- Agreement goes on. -/
theorem trans {m'' : Memory} (h : m.Agrees m' a n) (h' : m'.Agrees m'' a n) : m.Agrees m'' a n where
  placement := h'.placement.trans h.placement
  tables := h'.tables.trans h.tables
  spans := h'.spans.trans h.spans
  byte? := fun b inside => (h'.byte? b inside).trans (h.byte? b inside)

/-- Memories agree about a part of what they agree about. -/
theorem sub (h : m.Agrees m' a n) (room : m.spans a n) {i k : Nat} (le : i + k ≤ n) :
    m.Agrees m' (a + i) k where
  placement := h.placement
  tables := h.tables
  spans := by rw [spans_mono room le, spans_mono (h.spans.trans room) le]
  byte? := fun b inside => h.byte? b (inside.of_sub le)

/-- The same bytes are read. -/
theorem read? (h : m.Agrees m' a n) : m'.read? a n = m.read? a n :=
  read?_congr h.spans h.byte?

/-- The same word is read. -/
theorem word? (h : m.Agrees m' a 8) : m'.word? a = m.word? a := by
  rw [Memory.word?, Memory.word?, h.read?]

/-- The same subscript is read. -/
theorem subscript? (h : m.Agrees m' a 8) : m'.subscript? a = m.subscript? a := by
  rw [Memory.subscript?, Memory.subscript?, h.word?]

/-- The same type is found. -/
theorem type? (h : m.Agrees m' a n) (word : UInt64) : m'.type? word = m.type? word := by
  rw [Memory.type?, Memory.type?, table?, table?, h.placement, h.tables]

/-- The same dimension is read. -/
theorem dimension? (h : m.Agrees m' a 24) (room : m.spans a 24) :
    m'.dimension? a = m.dimension? a := by
  have lower := (h.sub room (i := 0) (k := 8) (by omega)).subscript?
  have extent := (h.sub room (i := 8) (k := 8) (by omega)).subscript?
  have stride := (h.sub room (i := 16) (k := 8) (by omega)).subscript?
  rw [Address.add_zero] at lower
  rw [Memory.dimension?, Memory.dimension?, lower, extent, stride]

/-- A descriptor is read alike from memories that agree about its bytes. -/
theorem descriptor? (h : m.Agrees m' a descriptorBytes) (room : m.spans a descriptorBytes) :
    m'.descriptor? a = m.descriptor? a := by
  -- The fields one after the other: all of them lie among the bytes of the descriptor.
  have byte {i : Nat} (lt : i < 456) : m'.byte? (a + i) = m.byte? (a + i) :=
    h.byte? _ (Address.inSpan_add lt)
  have word {i : Nat} (le : i + 8 ≤ 456) : m'.word? (a + i) = m.word? (a + i) :=
    (h.sub room le).word?
  have base : m'.word? a = m.word? a := word (i := 0) (by omega)
  have dims (j : Fin 15) : m'.dimension? (a + 24 + 24 * j.val) =
      m.dimension? (a + 24 + 24 * j.val) := by
    have le : 24 + 24 * j.val + 24 ≤ 456 := by omega
    rw [Address.add_add]
    exact (h.sub room le).dimension? (spans_mono room le)
  have lens (j : Fin 8) : m'.subscript? (a + 392 + 8 * j.val) =
      m.subscript? (a + 392 + 8 * j.val) := by
    rw [Address.add_add]
    exact (h.sub room (by simp only [descriptorBytes]; omega)).subscript?
  have type : m'.type? = m.type? := funext h.type?
  rw [Memory.descriptor?, Memory.descriptor?, base, word (i := 8) (by omega),
    byte (i := 16) (by omega), byte (i := 17) (by omega), byte (i := 18) (by omega),
    byte (i := 19) (by omega), byte (i := 20) (by omega), word (i := 384) (by omega), type,
    funext dims, funext lens, h.placement]

end Agrees

/-- The first bytes of a span lie in its region as well. -/
theorem spans_of_le {m : Memory} {a : Address} {k n : Nat} (room : m.spans a n) (le : k ≤ n) :
    m.spans a k :=
  spans_mono (i := 0) room (by omega)

/-- Whether bytes are there depends on their region only. -/
theorem spans_congr {m m' : Memory} {a : Address} (same : m'.region? a.region = m.region? a.region)
    (n : Nat) : m'.spans a n = m.spans a n := by
  rw [spans, spans, same]

/-- So does the byte at an address. -/
theorem byte?_congr {m m' : Memory} {a : Address}
    (same : m'.region? a.region = m.region? a.region) :
    m'.byte? a = m.byte? a := by
  rw [byte?, byte?, same]

/-- Memories with the same region agree about all spans in it. -/
theorem agrees_of_region {m m' : Memory} {a : Address} (placement : m'.placement = m.placement)
    (tables : m'.tables = m.tables) (same : m'.region? a.region = m.region? a.region) (n : Nat) :
    m.Agrees m' a n where
  placement := placement
  tables := tables
  spans := spans_congr same n
  byte? := fun b inside => byte?_congr (by rw [inside.1, same])

/-! ### Stores -/

/-- A store takes no new block. -/
@[simp] theorem size_heap_write (m : Memory) (a : Address) (bytes : List UInt8) :
    (m.write a bytes).heap.size = m.heap.size := by
  unfold write modifyRegion
  split <;> simp

/-- A store in another region changes nothing in this one. -/
theorem region?_write_of_ne (m : Memory) {a : Address} {region : Region} (bytes : List UInt8)
    (ne : region ≠ a.region) : (m.write a bytes).region? region = m.region? region :=
  region?_modifyRegion_of_ne _ _ ne

/-- A store leaves every region as long as it was. -/
theorem size_region?_write (m : Memory) (a : Address) (bytes : List UInt8) (region : Region) :
    ((m.write a bytes).region? region).map (·.size) = (m.region? region).map (·.size) := by
  by_cases same : region = a.region
  · subst same
    rw [write, region?_modifyRegion_self, Option.map_map]
    congr 1
    funext block
    simp
  · rw [region?_write_of_ne m bytes same]

/-- Bytes outside of a store stay as they are. -/
theorem byte?_write_of_not_inSpan {m : Memory} {a b : Address} {bytes : List UInt8}
    (fits : m.spans a bytes.length) (outside : ¬ b.InSpan a bytes.length) :
    (m.write a bytes).byte? b = m.byte? b := by
  rw [byte?_write fits]
  exact if_neg outside

/-- Zeros in a span, and everything else as it was. -/
theorem byte?_fillZero {m : Memory} {a : Address} {n : Nat} (fits : m.spans a n) (b : Address) :
    (m.fillZero a n).byte? b =
      if b.region = a.region ∧ a.offset ≤ b.offset ∧ b.offset < a.offset + n then some 0
      else m.byte? b := by
  rw [fillZero, byte?_write (by simpa using fits), List.length_replicate]
  split
  · next inside =>
    rw [List.getElem?_replicate, if_pos (by omega)]
  · rfl

/-- Stores to fields take no new block. -/
theorem size_heap_writeFields (m : Memory) (a : Address) (fields : List (Nat × List UInt8)) :
    (m.writeFields a fields).heap.size = m.heap.size := by
  induction fields generalizing m with
  | nil => rfl
  | cons f rest ih =>
    have next : (m.write (a + f.1) f.2).writeFields a rest = m.writeFields a (f :: rest) := rfl
    rw [← next, ih, size_heap_write]

/-- They change the size of no region. -/
theorem size_region?_writeFields (m : Memory) (a : Address) (fields : List (Nat × List UInt8))
    (region : Region) :
    ((m.writeFields a fields).region? region).map (·.size) = (m.region? region).map (·.size) := by
  induction fields generalizing m with
  | nil => rfl
  | cons f rest ih =>
    have next : (m.write (a + f.1) f.2).writeFields a rest = m.writeFields a (f :: rest) := rfl
    rw [← next, ih, size_region?_write]

/-- So as many bytes are there afterwards. -/
theorem spans_writeFields (m : Memory) (a : Address) (fields : List (Nat × List UInt8))
    (b : Address) (n : Nat) : (m.writeFields a fields).spans b n = m.spans b n := by
  induction fields generalizing m with
  | nil => rfl
  | cons f rest ih =>
    have next : (m.write (a + f.1) f.2).writeFields a rest = m.writeFields a (f :: rest) := rfl
    rw [← next, ih, spans_write]

/-- They change no other region. -/
theorem region?_writeFields_of_ne (m : Memory) {a : Address} {region : Region}
    (fields : List (Nat × List UInt8)) (ne : region ≠ a.region) :
    (m.writeFields a fields).region? region = m.region? region := by
  induction fields generalizing m with
  | nil => rfl
  | cons f rest ih =>
    have next : (m.write (a + f.1) f.2).writeFields a rest = m.writeFields a (f :: rest) := rfl
    rw [← next, ih]
    exact region?_write_of_ne m f.2 ne

/-- Stores inside a span change no byte outside. -/
theorem byte?_writeFields_of_not_inSpan {m : Memory} {a b : Address} {n : Nat}
    {fields : List (Nat × List UInt8)} (room : m.spans a n)
    (fit : ∀ f ∈ fields, f.1 + f.2.length ≤ n) (outside : ¬ b.InSpan a n) :
    (m.writeFields a fields).byte? b = m.byte? b := by
  induction fields generalizing m with
  | nil => rfl
  | cons f rest ih =>
    have le := fit f List.mem_cons_self
    have next : (m.write (a + f.1) f.2).writeFields a rest = m.writeFields a (f :: rest) := rfl
    rw [← next, ih (by rw [spans_write, room]) fun g mem => fit g (List.mem_cons_of_mem _ mem)]
    exact byte?_write_of_not_inSpan (spans_mono room le) fun inside => outside (inside.of_sub le)

/-- Two memories differ in nothing but the bytes of regions. -/
structure SameShape (m m' : Memory) : Prop where
  placement : m'.placement = m.placement
  tables : m'.tables = m.tables
  heapSize : m'.heap.size = m.heap.size
  size : ∀ region, (m'.region? region).map (·.size) = (m.region? region).map (·.size)

namespace SameShape

variable {m m' m'' : Memory}

/-- A memory has its own shape. -/
theorem refl (m : Memory) : m.SameShape m := ⟨rfl, rfl, rfl, fun _ => rfl⟩

/-- Shapes are kept one after the other. -/
theorem trans (h : m.SameShape m') (h' : m'.SameShape m'') : m.SameShape m'' where
  placement := h'.placement.trans h.placement
  tables := h'.tables.trans h.tables
  heapSize := h'.heapSize.trans h.heapSize
  size := fun region => (h'.size region).trans (h.size region)

/-- A store keeps the shape. -/
theorem of_write (m : Memory) (a : Address) (bytes : List UInt8) :
    m.SameShape (m.write a bytes) where
  placement := placement_write ..
  tables := tables_write ..
  heapSize := size_heap_write ..
  size := fun _ => size_region?_write ..

/-- So do stores to fields. -/
theorem of_writeFields (m : Memory) (a : Address) (fields : List (Nat × List UInt8)) :
    m.SameShape (m.writeFields a fields) where
  placement := placement_writeFields ..
  tables := tables_writeFields ..
  heapSize := size_heap_writeFields ..
  size := fun _ => size_region?_writeFields ..

end SameShape

/-- Whether bytes are there depends on the size of their region only. -/
theorem spans_of_size {m m' : Memory} {a : Address}
    (size : (m'.region? a.region).map (·.size) = (m.region? a.region).map (·.size)) (n : Nat) :
    m'.spans a n = m.spans a n := by
  rw [spans, spans]
  cases new : m'.region? a.region with
  | none =>
    rw [new] at size
    rw [Option.map_eq_none_iff.mp size.symm]
  | some bytes =>
    rw [new] at size
    obtain ⟨old, there, same⟩ := Option.map_eq_some_iff.mp size.symm
    rw [there, Option.any_some, Option.any_some, same]

/-- A region of the same size is live if it was. -/
theorem isSome_region?_of_size {m m' : Memory} {region : Region}
    (size : (m'.region? region).map (·.size) = (m.region? region).map (·.size)) :
    (m'.region? region).isSome = (m.region? region).isSome := by
  rw [← Option.isSome_map, size, Option.isSome_map]

/-- A region is its size and its bytes. -/
theorem region?_ext {m m' : Memory} {region : Region}
    (size : (m'.region? region).map (·.size) = (m.region? region).map (·.size))
    (bytes : ∀ offset, m'.byte? ⟨region, offset⟩ = m.byte? ⟨region, offset⟩) :
    m'.region? region = m.region? region := by
  simp only [byte?] at bytes
  cases new : m'.region? region with
  | none =>
    rw [new] at size
    exact (Option.map_eq_none_iff.mp size.symm).symm
  | some block =>
    rw [new] at size bytes
    obtain ⟨old, there, _⟩ := Option.map_eq_some_iff.mp size.symm
    rw [there] at bytes ⊢
    exact congrArg some (Array.ext_getElem? bytes)

/-- Memories of the same shape with the same bytes are equal. -/
theorem SameShape.eq_of_byte? {m m' : Memory} (h : m.SameShape m')
    (bytes : ∀ a, m'.byte? a = m.byte? a) : m' = m := by
  have regions (region : Region) : m'.region? region = m.region? region :=
    region?_ext (h.size region) fun offset => bytes ⟨region, offset⟩
  have buffers : m'.buffers = m.buffers := Array.ext_getElem? fun i => regions (.buffer i)
  have heap : m'.heap = m.heap := by
    refine Array.ext h.heapSize fun i lt lt' => ?_
    have block : m'.heap[i]?.join = m.heap[i]?.join := regions (.heap i)
    simpa [lt, lt'] using block
  cases m
  cases m'
  simp only [mk.injEq]
  exact ⟨h.placement, h.tables, buffers, heap⟩

/-- A stored descriptor changes nothing outside its bytes. -/
theorem agrees_writeDescriptor {m : Memory} {a b : Address} {n : Nat} (d : Descriptor)
    (room : m.spans a descriptorBytes) (apart : Address.Apart b n a descriptorBytes) :
    m.Agrees (m.writeDescriptor a d) b n where
  placement := placement_writeFields ..
  tables := tables_writeFields ..
  spans := spans_writeFields ..
  byte? := fun x inside =>
    byte?_writeFields_of_not_inSpan room (fun _ mem => Descriptor.field_le mem) (apart x inside)

/-- Bytes may be stored in a span: it lies in one live region, or there are no bytes. -/
def Admits (m : Memory) (a : Address) (n : Nat) : Prop :=
  n = 0 ∨ m.spans a n

/-- There is room for a part of what there is room for. -/
theorem Admits.sub {m : Memory} {a : Address} {i k n : Nat} (h : m.Admits a n) (le : i + k ≤ n) :
    m.Admits (a + i) k := by
  rcases h with none | room
  · exact .inl (by omega)
  · exact .inr (spans_mono room le)

/-! ### Blocks -/

/-- The regions after a new block. -/
theorem region?_allocate (m : Memory) (size : Nat) (s : Stretch) (region : Region) :
    (m.allocate size s).2.region? region =
      if region = .heap m.heap.size then some (.zeroed size) else m.region? region := by
  cases region with
  | buffer index => simp [allocate, setAside, region?]
  | heap index =>
    simp only [allocate, setAside, region?, Array.getElem?_push, Region.heap.injEq]
    split <;> rfl
  | unmapped => simp [region?]

/-- A new block is all zeros. -/
theorem byte?_allocate {m : Memory} {size : Nat} (s : Stretch) {a : Address}
    (new : a.region = .heap m.heap.size) (lt : a.offset < size) :
    (m.allocate size s).2.byte? a = some 0 := by
  rw [byte?, region?_allocate, if_pos new, Option.bind_some]
  simp [Block.zeroed, lt]

/-- A new block has as many bytes as were asked for. -/
theorem spans_allocate (m : Memory) {size n : Nat} (s : Stretch) (le : n ≤ size) :
    (m.allocate size s).2.spans ⟨.heap m.heap.size, 0⟩ n := by
  refine spans_iff.mpr ⟨.zeroed size, ?_, ?_⟩
  · rw [region?_allocate, if_pos rfl]
  · rw [Block.zeroed, Array.size_replicate, Nat.zero_add]
    exact le

/-- The regions after a block was taken away. -/
theorem region?_release (m : Memory) (block : Nat) (region : Region) :
    (m.release block).region? region = if region = .heap block then none else m.region? region := by
  cases region with
  | buffer index => simp [release, region?]
  | heap index =>
    simp only [release, region?, Array.getElem?_setIfInBounds, Region.heap.injEq]
    by_cases same : block = index
    · subst same
      simp only [if_true]
      split <;> rfl
    · rw [if_neg same, if_neg (Ne.symm same)]
  | unmapped => simp [region?]

/-- A block that is given back keeps its number. -/
@[simp] theorem size_heap_release (m : Memory) (block : Nat) :
    (m.release block).heap.size = m.heap.size := by
  simp [release]

/-- Blocks with greater numbers than any so far are not live. -/
theorem region?_heap_of_le {m : Memory} {block : Nat} (le : m.heap.size ≤ block) :
    m.region? (.heap block) = none := by
  simp [region?, Array.getElem?_eq_none le]

/-- Live blocks have a number below that of the next one. -/
theorem lt_of_region?_heap {m : Memory} {block : Nat} {bytes : Block}
    (live : m.region? (.heap block) = some bytes) : block < m.heap.size := by
  by_contra ge
  rw [region?_heap_of_le (by omega)] at live
  cases live

/-- A block of zeros has a zero at each place. -/
theorem byte?_zeroed {m : Memory} {a : Address} {size : Nat}
    (live : m.region? a.region = some (.zeroed size)) (lt : a.offset < size) :
    m.byte? a = some 0 := by
  simp [byte?, live, Block.zeroed, lt]

/-- A live block is found by its first address. -/
theorem blockAt?_of_live {m : Memory} {block : Nat} {bytes : Block}
    (live : m.region? (.heap block) = some bytes) : m.blockAt? ⟨.heap block, 0⟩ = some block := by
  simp [blockAt?, live]

/-! ### Zeros -/

/-- Zeros are read where there are zeros. -/
theorem read?_of_zeros {m : Memory} {a : Address} {n : Nat} (room : m.spans a n)
    (zeros : ∀ b : Address, b.InSpan a n → m.byte? b = some 0) :
    m.read? a n = some (.replicate n 0) := by
  refine read?_eq_some_iff.mpr ⟨room, List.length_replicate, fun j lt => ?_⟩
  rw [zeros _ (Address.inSpan_add lt), List.getElem?_replicate, if_pos lt]

/-- Where all bytes are zero, there is a zeroed descriptor. -/
theorem descriptor?_of_zeros {m : Memory} {a : Address} (room : m.spans a descriptorBytes)
    (zeros : ∀ b : Address, b.InSpan a descriptorBytes → m.byte? b = some 0) :
    m.descriptor? a = some .zeroed := by
  -- Each kind of field is read as the value that zeros encode.
  have byte {i : Nat} (lt : i < 456) : m.byte? (a + i) = some 0 := zeros _ (Address.inSpan_add lt)
  have word {i : Nat} (le : i + 8 ≤ 456) : m.word? (a + i) = some 0 := by
    have bytes := read?_of_zeros (spans_mono room le) fun b inside => zeros b (inside.of_sub le)
    rw [word?, bytes]
    rfl
  have subscript {i : Nat} (le : i + 8 ≤ 456) : m.subscript? (a + i) = some 0 := by
    rw [subscript?, word le]
    rfl
  have base : m.word? a = some 0 := word (i := 0) (by omega)
  have dims (j : Fin 15) : m.dimension? (a + 24 + 24 * j.val) = some .empty := by
    have lower : 24 + 24 * j.val + 8 ≤ 456 := by omega
    have extent : 24 + 24 * j.val + 8 + 8 ≤ 456 := by omega
    have stride : 24 + 24 * j.val + 16 + 8 ≤ 456 := by omega
    rw [dimension?, Address.add_add, Address.add_add, Address.add_add, subscript lower,
      subscript extent, subscript stride]
    rfl
  have lens (j : Fin 8) : m.subscript? (a + 392 + 8 * j.val) = some 0 := by
    rw [Address.add_add]
    exact subscript (by omega)
  have allDims : collect? (fun j : Fin 15 => m.dimension? (a + 24 + 24 * j.val)) =
      some (.replicate 15 .empty) := collect?_eq_some_iff.mpr fun j => by simp [dims j]
  have allLens : collect? (fun j : Fin 8 => m.subscript? (a + 392 + 8 * j.val)) =
      some (.replicate 8 0) := collect?_eq_some_iff.mpr fun j => by simp [lens j]
  rw [descriptor?, base, word (i := 8) (by omega), byte (i := 16) (by omega),
    byte (i := 17) (by omega), byte (i := 18) (by omega), byte (i := 19) (by omega),
    byte (i := 20) (by omega), word (i := 384) (by omega), allDims, allLens]
  rfl

/-! ### Sizes -/

/-- The bytes of a list of blocks, counted block by block. -/
theorem foldl_size_eq_sum (blocks : List (Option Block)) :
    blocks.foldl (fun count block => count + (block.map (·.size)).getD 0) 0 =
      ∑ i ∈ Finset.range blocks.length, (blocks[i]?.join.map (·.size)).getD 0 := by
  induction blocks using List.reverseRecOn with
  | nil => rfl
  | append_singleton blocks last ih =>
    rw [List.foldl_append, ih, List.length_append, List.length_singleton, Finset.sum_range_succ]
    have earlier : ∀ i ∈ Finset.range blocks.length,
        ((blocks ++ [last])[i]?.join.map (·.size)).getD 0 =
        (blocks[i]?.join.map (·.size)).getD 0 := by
      intro i mem
      rw [List.getElem?_append_left (Finset.mem_range.mp mem)]
    rw [Finset.sum_congr rfl earlier]
    simp

/-- The bytes of a heap block, none where there is no live one. -/
def heapBytes (m : Memory) (b : Nat) : Nat :=
  ((m.region? (.heap b)).map (·.size)).getD 0

/-- Live blocks that are not empty are no more than there are bytes. -/
theorem length_le_byteCount {m : Memory} {blocks : List Nat} (distinct : blocks.Nodup)
    (live : ∀ b ∈ blocks, ∃ bytes, m.region? (.heap b) = some bytes ∧ 0 < bytes.size) :
    blocks.length ≤ m.byteCount := by
  have total : m.heap.foldl (fun count block => count + (block.map (·.size)).getD 0) 0 =
      ∑ b ∈ Finset.range m.heap.size, m.heapBytes b := by
    rw [← Array.foldl_toList, foldl_size_eq_sum, Array.length_toList]
    simp only [Array.getElem?_toList]
    rfl
  have subset : blocks.toFinset ⊆ Finset.range m.heap.size := by
    intro b mem
    obtain ⟨bytes, there, _⟩ := live b (List.mem_toFinset.mp mem)
    exact Finset.mem_range.mpr (lt_of_region?_heap there)
  have positive : ∀ b ∈ blocks.toFinset, 1 ≤ m.heapBytes b := by
    intro b mem
    obtain ⟨bytes, there, some⟩ := live b (List.mem_toFinset.mp mem)
    simp only [heapBytes, there, Option.map_some, Option.getD_some]
    exact some
  -- Every block counts for at least one byte.
  calc blocks.length = ∑ b ∈ blocks.toFinset, 1 := by
        rw [← Finset.card_eq_sum_ones, List.toFinset_card_of_nodup distinct]
    _ ≤ ∑ b ∈ blocks.toFinset, m.heapBytes b := Finset.sum_le_sum positive
    _ ≤ ∑ b ∈ Finset.range m.heap.size, m.heapBytes b := Finset.sum_le_sum_of_subset subset
    _ ≤ m.byteCount := by
        rw [← total, byteCount]
        omega

end Memory

end DerivedTypes
