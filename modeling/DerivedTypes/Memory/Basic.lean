import DerivedTypes.LittleEndian
import DerivedTypes.Memory.Placement
import DerivedTypes.Splice

namespace DerivedTypes

/-!
# Memory

Memory is a set of regions, each an array of bytes, and the tables that pointers may point to, all
at places of an address space.

* `Memory.byte?` is the view: which byte lies at an address. `byte?_write` says what a store does to
  it;
* `Memory.spans`: whether some bytes all lie in one live region;
* `Memory.read?` and `Memory.write` move several bytes;
* `Memory.allocate` puts a zeroed heap block into a stretch, `Memory.release` takes one away. Blocks
  are numbered in order of allocation. No other block gets the number of a freed one, but one may
  get its stretch.
-/

/-- The bytes of one region. -/
abbrev Block := Array UInt8

namespace Block

/-- A block of zeros. -/
def zeroed (size : Nat) : Block := .replicate size 0

end Block

/-- Tables by number, buffers, and heap blocks in order of allocation; a freed block is gone. -/
structure Memory where
  placement : Placement
  tables : Array DerivedType
  buffers : Array Block
  heap : Array (Option Block)
deriving Inhabited

namespace Memory

/-- Memory with the given tables and buffers where a loader puts them, and no heap block. -/
def ofBuffers (loader : Loader) (tables : Array DerivedType) (buffers : List (List UInt8)) :
    Memory where
  placement := loader.placement buffers.length
  tables := tables
  buffers := (buffers.map (·.toArray)).toArray
  heap := #[]

/-- The bytes of a region, if it is live. -/
def region? (m : Memory) : Region → Option Block
  | .buffer index => m.buffers[index]?
  | .heap index => m.heap[index]?.join
  | .unmapped => none

/-- The byte at an address. -/
def byte? (m : Memory) (a : Address) : Option UInt8 :=
  (m.region? a.region).bind (·[a.offset]?)

/-- All of `n` bytes from an address on lie in one live region. -/
def spans (m : Memory) (a : Address) (n : Nat) : Bool :=
  (m.region? a.region).any (a.offset + n ≤ ·.size)

/-- The `n` bytes from an address on. -/
def read? (m : Memory) (a : Address) (n : Nat) : Option (List UInt8) :=
  (m.region? a.region).bind fun block =>
    if a.offset + n ≤ block.size then some (block.extract a.offset (a.offset + n)).toList else none

/-- Changes the bytes of a region. -/
def modifyRegion (m : Memory) (region : Region) (f : Block → Block) : Memory :=
  match region with
  | .buffer index => { m with buffers := m.buffers.modify index f }
  | .heap index => { m with heap := m.heap.modify index (·.map f) }
  | .unmapped => m

/-- Stores bytes from an address on. -/
def write (m : Memory) (a : Address) (bytes : List UInt8) : Memory :=
  m.modifyRegion a.region (overwrite · bytes a.offset)

/-- Stores `n` zeros from an address on. -/
def fillZero (m : Memory) (a : Address) (n : Nat) : Memory :=
  m.write a (.replicate n 0)

/-- Sets a stretch aside for the next heap block. -/
def setAside (m : Memory) (s : Stretch) : Memory :=
  { m with placement := m.placement.place (.heap m.heap.size) s }

/-- Adds a zeroed heap block in a stretch; its number comes first. -/
def allocate (m : Memory) (size : Nat) (s : Stretch) : Nat × Memory :=
  let block := m.heap.size
  let m := m.setAside s
  (block, { m with heap := m.heap.push (some (.zeroed size)) })

/-- The number of the live heap block that begins at an address. -/
def blockAt? (m : Memory) (a : Address) : Option Nat :=
  match a with
  | ⟨.heap index, 0⟩ => if (m.region? (.heap index)).isSome then some index else none
  | _ => none

/-- Takes a heap block away. -/
def release (m : Memory) (block : Nat) : Memory :=
  { m with heap := m.heap.setIfInBounds block none }

/-- Number of bytes in live regions. -/
def byteCount (m : Memory) : Nat :=
  m.buffers.foldl (fun count block => count + block.size) 0 +
  m.heap.foldl (fun count block => count + (block.map (·.size)).getD 0) 0

/-- The live heap blocks with their sizes, in order of allocation. -/
def liveBlocks (m : Memory) : List (Nat × Nat) :=
  m.heap.toList.zipIdx.filterMap fun (block, index) => block.map fun bytes => (index, bytes.size)

/-! ### The view -/

/-- A change to a region is found in that region. -/
@[simp] theorem region?_modifyRegion_self (m : Memory) (region : Region) (f : Block → Block) :
    (m.modifyRegion region f).region? region = (m.region? region).map f := by
  cases region with
  | buffer index => simp [modifyRegion, region?, Array.getElem?_modify]
  | heap index =>
    simp only [modifyRegion, region?, Array.getElem?_modify, if_true]
    rcases m.heap[index]? with _ | _ | block <;> rfl
  | unmapped => rfl

/-- A change to a region is not seen in any other. -/
theorem region?_modifyRegion_of_ne (m : Memory) {region other : Region} (f : Block → Block)
    (ne : other ≠ region) : (m.modifyRegion region f).region? other = m.region? other := by
  cases region <;> cases other <;> simp_all [modifyRegion, region?, Array.getElem?_modify, Ne.symm]

/-- Stores place no region anew. -/
@[simp] theorem placement_write (m : Memory) (a : Address) (bytes : List UInt8) :
    (m.write a bytes).placement = m.placement := by
  unfold write modifyRegion
  split <;> rfl

/-- Stores change no table. -/
@[simp] theorem tables_write (m : Memory) (a : Address) (bytes : List UInt8) :
    (m.write a bytes).tables = m.tables := by
  unfold write modifyRegion
  split <;> rfl

/-- Bytes in a row are in memory if a region holds all of them. -/
theorem spans_iff {m : Memory} {a : Address} {n : Nat} :
    m.spans a n = true ↔ ∃ block, m.region? a.region = some block ∧ a.offset + n ≤ block.size := by
  simp [spans, Option.any_eq_true]

/-- A store that fits changes the bytes that it stores to, and no others. -/
theorem byte?_write {m : Memory} {a : Address} {bytes : List UInt8} (fits : m.spans a bytes.length)
    (b : Address) :
    (m.write a bytes).byte? b =
      if b.region = a.region ∧ a.offset ≤ b.offset ∧ b.offset < a.offset + bytes.length then
        bytes[b.offset - a.offset]?
      else m.byte? b := by
  obtain ⟨old, live, room⟩ := spans_iff.mp fits
  unfold byte? write
  by_cases same : b.region = a.region
  · rw [same, region?_modifyRegion_self, live]
    simp only [Option.map_some, Option.bind_some, getElem?_overwrite room, true_and]
  · rw [region?_modifyRegion_of_ne _ _ same, if_neg (fun h => same h.1)]

/-- A store leaves every region as long as it was. -/
theorem spans_write (m : Memory) (a : Address) (bytes : List UInt8) (b : Address) (n : Nat) :
    (m.write a bytes).spans b n = m.spans b n := by
  unfold spans write
  by_cases same : b.region = a.region
  · rw [same, region?_modifyRegion_self, Option.any_map]
    simp only [size_overwrite]
  · rw [region?_modifyRegion_of_ne _ _ same]

end Memory

end DerivedTypes
