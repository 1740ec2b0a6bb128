import DerivedTypes.Proofs.DefaultValue.Effects
import DerivedTypes.Proofs.Ownership.Forest
import Mathlib.Data.Set.Lattice
import Mathlib.Order.CompletePartialOrder

namespace DerivedTypes

/-!
# Places in memory

An operation looks at some places in memory and changes some. A place is a byte, or the extent of a
region: whether the region is live, and how many bytes it has.

* `Memory.SameOn`: two memories are the same at some places. What is read there is then the same
  (`SameOn.spans`, `SameOn.agrees`);
* `Memory.Changes`: a memory becomes another one by changes at some places;
* `SameOn.after`: after the same changes, memories are the same where they were before;
* `Changes.eq_of_sameOn`: memories that come out of one by changes at the same places are equal, if
  they are the same there;
* `Zone`: bytes with descriptors among them; `Zone.Within`: a zone is a part of another one;
  `Zone.Independent`: two zones have nothing in common.
-/

/-- What can be the same or differ by itself. -/
inductive Location where
  | byte (address : Address)
  /-- Whether a region is live, and its size. -/
  | extent (region : Region)

namespace Location

/-- Where a place lies. -/
def region : Location → Region
  | byte a => a.region
  | extent region => region

/-- The `n` bytes from an address on. -/
def span (a : Address) (n : Nat) : Set Location
  | byte b => b.InSpan a n
  | extent _ => False

/-- The bytes and the extents of heap blocks. -/
def inBlocks (blocks : List Nat) : Set Location :=
  {l | ∃ b ∈ blocks, l.region = .heap b}

variable {a b : Address} {n k : Nat} {region : Region} {blocks : List Nat}

/-- A span consists of bytes. -/
@[simp] theorem extent_not_mem_span : extent region ∉ span a n := fun mem => mem

/-- What lies in a span is a byte in it. -/
theorem mem_span {l : Location} (mem : l ∈ span a n) : ∃ b, l = byte b ∧ b.InSpan a n := by
  cases l with
  | byte b => exact ⟨b, rfl, mem⟩
  | extent _ => exact absurd mem extent_not_mem_span

/-- What lies in a span lies in its region. -/
theorem region_of_mem_span {l : Location} (mem : l ∈ span a n) : l.region = a.region := by
  obtain ⟨b, rfl, inside⟩ := mem_span mem
  exact inside.1

/-- A part of a span. -/
theorem span_subset {i : Nat} (le : i + k ≤ n) : span (a + i) k ⊆ span a n := by
  intro l mem
  obtain ⟨b, rfl, inside⟩ := mem_span mem
  exact inside.of_sub le

/-- More blocks take more places. -/
theorem inBlocks_mono {blocks' : List Nat} (sub : ∀ b ∈ blocks, b ∈ blocks') :
    inBlocks blocks ⊆ inBlocks blocks' :=
  fun _ ⟨b, mem, same⟩ => ⟨b, sub b mem, same⟩

end Location

open Location

namespace Memory

/-! ### Memories that are the same somewhere -/

/-- Two memories are the same at a place. -/
def SameAt (m m' : Memory) : Location → Prop
  | byte a => m'.byte? a = m.byte? a
  | extent region => (m'.region? region).map (·.size) = (m.region? region).map (·.size)

/-- Two memories have the same tables at the same addresses, and are the same at some places. -/
structure SameOn (m : Memory) (R : Set Location) (m' : Memory) : Prop where
  placement : m'.placement = m.placement
  tables : m'.tables = m.tables
  sameAt : ∀ l ∈ R, m.SameAt m' l

/-- A memory has become another one by changes at some places. -/
structure Changes (m : Memory) (W : Set Location) (m' : Memory) : Prop where
  placement : m'.placement = m.placement
  tables : m'.tables = m.tables
  heapSize : m'.heap.size = m.heap.size
  sameAt : ∀ l ∉ W, m.SameAt m' l

variable {m m' m'' n n' : Memory} {R R' W W' : Set Location} {l : Location} {a : Address} {k : Nat}

namespace SameAt

/-- A memory is the same as itself. -/
theorem refl (m : Memory) (l : Location) : m.SameAt m l := by
  cases l <;> exact rfl

/-- Sameness has no direction. -/
theorem symm (h : m.SameAt m' l) : m'.SameAt m l := by
  cases l <;> exact Eq.symm h

/-- Sameness goes on. -/
theorem trans (h : m.SameAt m' l) (h' : m'.SameAt m'' l) : m.SameAt m'' l := by
  cases l <;> exact Eq.trans h' h

/-- A region with the same bytes and the same extent is the same. -/
theorem region? {region : Region} (h : ∀ l : Location, l.region = region → m.SameAt m' l) :
    m'.region? region = m.region? region :=
  region?_ext (h (extent region) rfl) fun offset => h (byte ⟨region, offset⟩) rfl

end SameAt

namespace SameOn

/-- A memory is the same as itself everywhere. -/
theorem refl (m : Memory) (R : Set Location) : m.SameOn R m := ⟨rfl, rfl, fun l _ => .refl m l⟩

/-- Sameness has no direction. -/
theorem symm (h : m.SameOn R m') : m'.SameOn R m where
  placement := h.placement.symm
  tables := h.tables.symm
  sameAt := fun l mem => (h.sameAt l mem).symm

/-- Sameness goes on. -/
theorem trans (h : m.SameOn R m') (h' : m'.SameOn R m'') : m.SameOn R m'' where
  placement := h'.placement.trans h.placement
  tables := h'.tables.trans h.tables
  sameAt := fun l mem => (h.sameAt l mem).trans (h'.sameAt l mem)

/-- What is the same somewhere is the same in each part of that. -/
theorem mono (h : m.SameOn R m') (sub : R' ⊆ R) : m.SameOn R' m' :=
  ⟨h.placement, h.tables, fun l mem => h.sameAt l (sub mem)⟩

/-- As many bytes are there if the extent of the region is the same. -/
theorem spans (h : m.SameOn R m') (known : extent a.region ∈ R) (k : Nat) :
    m'.spans a k = m.spans a k :=
  spans_of_size (h.sameAt _ known) k

/-- There is room for the same bytes if the extent of the region is the same. -/
theorem admits (h : m.SameOn R m') (known : extent a.region ∈ R) (room : m.Admits a k) :
    m'.Admits a k := by
  rw [Admits, h.spans known]
  exact room

/-- Memories that are the same at all bytes of a span agree there. -/
theorem agrees (h : m.SameOn R m') (known : extent a.region ∈ R) (bytes : Location.span a k ⊆ R) :
    m.Agrees m' a k where
  placement := h.placement
  tables := h.tables
  spans := h.spans known k
  byte? := fun b inside => h.sameAt (byte b) (bytes inside)

end SameOn

namespace Changes

/-- No changes at all. -/
theorem refl (m : Memory) (W : Set Location) :
    m.Changes W m := ⟨rfl, rfl, rfl, fun l _ => .refl m l⟩

/-- Changes at the same places, one after the other. -/
theorem trans (h : m.Changes W m') (h' : m'.Changes W m'') : m.Changes W m'' where
  placement := h'.placement.trans h.placement
  tables := h'.tables.trans h.tables
  heapSize := h'.heapSize.trans h.heapSize
  sameAt := fun l out => (h.sameAt l out).trans (h'.sameAt l out)

/-- Changes at some places are changes at more places. -/
theorem mono (h : m.Changes W m') (sub : W ⊆ W') : m.Changes W' m' :=
  ⟨h.placement, h.tables, h.heapSize, fun l out => h.sameAt l fun mem => out (sub mem)⟩

/-- Changes at different places, one after the other. -/
theorem trans_union (h : m.Changes W m') (h' : m'.Changes W' m'') : m.Changes (W ∪ W') m'' :=
  (h.mono Set.subset_union_left).trans (h'.mono Set.subset_union_right)

/-- Memory is the same where nothing is changed. -/
theorem sameOn (h : m.Changes W m') (apart : Disjoint R W) : m.SameOn R m' :=
  ⟨h.placement, h.tables, fun l mem => h.sameAt l (Set.disjoint_left.mp apart mem)⟩

/-- Bytes may still be stored where the extent of the region is not changed. -/
theorem admits (h : m.Changes W m') (kept : extent a.region ∉ W) (room : m.Admits a k) :
    m'.Admits a k := by
  rw [Admits, spans_of_size (h.sameAt _ kept)]
  exact room

/-- Two memories that come out of one by changes at the same places are equal if they are the same
    there. -/
theorem eq_of_sameOn (h : m.Changes W m') (h' : m.Changes W m'') (same : m'.SameOn W m'') :
    m'' = m' := by
  -- A place is either among the changed ones, or as it was before in both.
  have everywhere (l : Location) : m'.SameAt m'' l := by
    by_cases mem : l ∈ W
    · exact same.sameAt l mem
    · exact (h.sameAt l mem).symm.trans (h'.sameAt l mem)
  have shape : m'.SameShape m'' :=
    ⟨same.placement, same.tables, h'.heapSize.trans h.heapSize.symm, fun region =>
      everywhere (extent region)⟩
  exact shape.eq_of_byte? fun a => everywhere (byte a)

end Changes

/-- After changes at places where memories become the same, they are the same where they were
    before. -/
theorem SameOn.after (before : m.SameOn R n) (after : m'.SameOn R' n') (changes : m.Changes W m')
    (changes' : n.Changes W n') (sub : W ⊆ R') : m'.SameOn R n' where
  placement := after.placement
  tables := after.tables
  sameAt := by
    intro l mem
    by_cases again : l ∈ R'
    · exact after.sameAt l again
    · have out : l ∉ W := fun changed => again (sub changed)
      exact (changes.sameAt l out).symm.trans ((before.sameAt l mem).trans (changes'.sameAt l out))

/-! ### Stores and releases -/

/-- A store changes the bytes that it reaches. -/
theorem changes_write {bytes : List UInt8} (fits : m.Admits a bytes.length) :
    m.Changes (Location.span a bytes.length) (m.write a bytes) where
  placement := placement_write ..
  tables := tables_write ..
  heapSize := size_heap_write ..
  sameAt := by
    intro l out
    cases l with
    | byte b =>
      show (m.write a bytes).byte? b = m.byte? b
      have unreached : ¬ Store.Reaches ⟨a, bytes⟩ b := out
      rw [byte?_write_of_admits (s := ⟨a, bytes⟩) fits,
        Store.byte?_eq_none_iff.mpr unreached, Option.none_or]
    | extent region => exact size_region?_write ..

/-- What a store leaves depends on what was there. -/
theorem SameOn.write {bytes : List UInt8} (h : m.SameOn R n) (known : extent a.region ∈ R)
    (fits : m.Admits a bytes.length) : (m.write a bytes).SameOn R (n.write a bytes) where
  placement := by rw [placement_write, placement_write, h.placement]
  tables := by rw [tables_write, tables_write, h.tables]
  sameAt := by
    intro l mem
    have same := h.sameAt l mem
    cases l with
    | byte b =>
      show (n.write a bytes).byte? b = (m.write a bytes).byte? b
      rw [byte?_write_of_admits (s := ⟨a, bytes⟩) fits,
        byte?_write_of_admits (s := ⟨a, bytes⟩) (h.admits known fits),
        show n.byte? b = m.byte? b from same]
    | extent region =>
      show ((n.write a bytes).region? region).map (·.size) =
        ((m.write a bytes).region? region).map (·.size)
      rw [size_region?_write, size_region?_write]
      exact same

/-- A release changes one block. -/
theorem changes_release (m : Memory) (block : Nat) :
    m.Changes (inBlocks [block]) (m.release block) where
  placement := rfl
  tables := rfl
  heapSize := size_heap_release ..
  sameAt := by
    intro l out
    have same : (m.release block).region? l.region = m.region? l.region := by
      rw [region?_release, if_neg fun here => out ⟨block, List.mem_cons_self, here⟩]
    cases l with
    | byte b => exact byte?_congr same
    | extent region => exact congrArg _ same

/-- What a release leaves depends on what was there. -/
theorem SameOn.release (h : m.SameOn R n) (block : Nat) :
    (m.release block).SameOn R (n.release block) where
  placement := h.placement
  tables := h.tables
  sameAt := by
    intro l mem
    by_cases gone : l.region = .heap block
    · have both : (n.release block).region? l.region = (m.release block).region? l.region := by
        rw [region?_release, region?_release, if_pos gone, if_pos gone]
      cases l with
      | byte b => exact byte?_congr both
      | extent region => exact congrArg _ both
    · have out : l ∉ inBlocks [block] := by
        rintro ⟨b, here, same⟩
        rw [List.mem_singleton.mp here] at same
        exact gone same
      have kept := (m.changes_release block).sameAt l out
      have kept' := (n.changes_release block).sameAt l out
      exact kept.symm.trans ((h.sameAt l mem).trans kept')

end Memory

/-! ### Zones -/

/-- Bytes that belong together, and the descriptors among them. -/
structure Zone where
  address : Address
  size : Nat
  slots : List Address

namespace Zone

/-- The bytes of a zone. -/
def span (z : Zone) : Set Location := Location.span z.address z.size

/-- What can be known of a zone: its bytes, and whether they are there. -/
def readable (z : Zone) : Set Location := insert (extent z.address.region) z.span

/-- The bytes of a zone that belong to none of its descriptors. -/
def writable (z : Zone) : Set Location :=
  {l ∈ z.span | ∀ s ∈ z.slots, l ∉ Location.span s descriptorBytes}

/-- A zone is a part of another one, with all descriptors that reach into it. -/
structure Within (z c : Zone) : Prop where
  exists_offset : ∃ i, z.address = c.address + i ∧ i + z.size ≤ c.size
  writable : z.writable ⊆ c.writable

variable {z c e : Zone}

/-- The bytes of a zone can be known. -/
theorem span_subset_readable (z : Zone) : z.span ⊆ z.readable := Set.subset_insert ..

/-- The bytes to write are bytes of the zone. -/
theorem writable_subset_span (z : Zone) : z.writable ⊆ z.span := fun _ mem => mem.1

/-- What can be written can be known. -/
theorem writable_subset_readable (z : Zone) : z.writable ⊆ z.readable :=
  z.writable_subset_span.trans z.span_subset_readable

/-- That a zone is there can be known. -/
theorem extent_mem_readable (z : Zone) : extent z.address.region ∈ z.readable := Set.mem_insert ..

/-- Writing to a zone does not take it away. -/
theorem extent_not_mem_span (z : Zone) {region : Region} : extent region ∉ z.span := fun mem => mem

/-- What can be known of a zone lies in its region. -/
theorem region_of_mem_readable {l : Location} (mem : l ∈ z.readable) :
    l.region = z.address.region := by
  rcases Set.mem_insert_iff.mp mem with rfl | mem
  · rfl
  · exact region_of_mem_span mem

namespace Within

/-- A zone is a part of itself. -/
theorem refl (z : Zone) : z.Within z := ⟨⟨0, rfl, by omega⟩, fun _ mem => mem⟩

/-- A part of a part is a part. -/
theorem trans (h : e.Within z) (h' : z.Within c) : e.Within c where
  exists_offset := by
    obtain ⟨i, begins, fits⟩ := h.exists_offset
    obtain ⟨j, begins', fits'⟩ := h'.exists_offset
    exact ⟨j + i, by rw [begins, begins', Address.add_add], by omega⟩
  writable := h.writable.trans h'.writable

/-- A part lies in the same region. -/
theorem region (h : z.Within c) : z.address.region = c.address.region := by
  obtain ⟨i, begins, _⟩ := h.exists_offset
  rw [begins, Address.region_add]

/-- The bytes of a part are bytes of the whole. -/
theorem span (h : z.Within c) : z.span ⊆ c.span := by
  obtain ⟨i, begins, fits⟩ := h.exists_offset
  rw [Zone.span, begins]
  exact span_subset fits

/-- What can be known of a part can be known of the whole. -/
theorem readable (h : z.Within c) : z.readable ⊆ c.readable := by
  rw [Zone.readable, h.region]
  exact Set.insert_subset_insert h.span

/-- There is room for a part of what there is room for. -/
theorem admits (h : z.Within c) {m : Memory} (room : m.Admits c.address c.size) :
    m.Admits z.address z.size := by
  obtain ⟨i, begins, fits⟩ := h.exists_offset
  rw [begins]
  exact room.sub fits

end Within

/-- Two zones, each with some heap blocks, have nothing in common. -/
structure Independent (z : Zone) (blocks : List Nat) (c : Zone) (others : List Nat) : Prop where
  apart : Address.Apart z.address z.size c.address c.size
  distinct : ∀ b ∈ blocks, b ∉ others
  outside : ∀ b ∈ others, z.address.region ≠ .heap b
  outside' : ∀ b ∈ blocks, c.address.region ≠ .heap b

namespace Independent

variable {blocks others : List Nat}

/-- Independence has no direction. -/
theorem symm (h : z.Independent blocks c others) : c.Independent others z blocks where
  apart := h.apart.symm
  distinct := fun b mem here => h.distinct b here mem
  outside := h.outside'
  outside' := h.outside

/-- Nothing of one zone and its blocks is among the bytes of the other one, or in a block of
    that. -/
theorem disjoint (h : z.Independent blocks c others) :
    Disjoint (z.readable ∪ inBlocks blocks) (c.span ∪ inBlocks others) := by
  refine Set.disjoint_left.mpr ?_
  rintro l (here | ⟨b, mem, region⟩) (there | ⟨b', mem', region'⟩)
  · obtain ⟨x, rfl, inside⟩ := mem_span there
    rcases Set.mem_insert_iff.mp here with same | here
    · cases same
    · exact h.apart x here inside
  · exact h.outside b' mem' ((region_of_mem_readable here).symm.trans region')
  · exact h.outside' b mem ((Location.region_of_mem_span there).symm.trans region)
  · rw [region] at region'
    cases region'
    exact h.distinct b mem mem'

end Independent

end Zone

end DerivedTypes
