import DerivedTypes.Machine.Allocator
import DerivedTypes.Proofs.Memory.Fields

namespace DerivedTypes

/-!
# Pointers to live blocks

An allocator may put blocks anywhere apart from live regions, also where freed blocks were. So a
word that stood for a freed block may stand for another one later, but words for live regions keep
their meaning.

* `Memory.WellPlaced`: tables lie apart, and every live block is found by its word. New blocks keep
  this (`WellPlaced.allocate`);
* `Memory.KeepsPointers`: words for live regions still stand for them. This holds of new blocks as
  well (`KeepsPointers.allocate`), and a descriptor without storage, or with storage that is live,
  is read as before (`KeepsPointers.descriptor?`).
-/

namespace Memory

variable {m m' m'' : Memory} {size : Nat} {s : Stretch}

/-! ### Places -/

/-- Tables lie apart, and every live block is found again by its word. -/
structure WellPlaced (m : Memory) : Prop where
  tables : TablesApart m.placement.table m.tables.size
  blocks : ∀ block, (m.region? (.heap block)).isSome → m.placement.Locates ⟨.heap block, 0⟩

/-- A region outside of memory is not live. -/
theorem ne_unmapped_of_live {region : Region} (live : (m.region? region).isSome) :
    region ≠ .unmapped := by
  rintro rfl
  cases live

/-- Where a new block lies apart from a live region, what is found there is found as before. -/
theorem HasRoom.address?_place (hasRoom : m.HasRoom size s) {region : Region} {word : UInt64}
    {a : Address} (there : m.placement.address? word = some a)
    (live : (m.region? a.region).isSome) :
    (m.placement.place region s).address? word = some a :=
  Placement.address?_place there (ne_unmapped_of_live live) fun entry mem same =>
    hasRoom.apart entry mem (by rwa [same])

namespace WellPlaced

/-- Blocks that are gone need no place. -/
theorem mono (h : m.WellPlaced) (placement : m'.placement = m.placement)
    (tables : m'.tables = m.tables)
    (fewer : ∀ block, (m'.region? (.heap block)).isSome → (m.region? (.heap block)).isSome) :
    m'.WellPlaced where
  tables := by
    rw [placement, tables]
    exact h.tables
  blocks := fun block live => by
    rw [placement]
    exact h.blocks block (fewer block live)

/-- The bytes in blocks do not matter to where they lie. -/
theorem congr (h : m.WellPlaced) (shape : m.SameShape m') : m'.WellPlaced :=
  h.mono shape.placement shape.tables fun _ live => by
    rwa [isSome_region?_of_size (shape.size _)] at live

/-- A new block is found by its word, and so are those that were there before. -/
theorem allocate (h : m.WellPlaced) (hasRoom : m.HasRoom size s) (positive : 0 < size) :
    (m.allocate size s).2.WellPlaced where
  tables := h.tables
  blocks := by
    intro block live
    by_cases new : block = m.heap.size
    · subst new
      exact m.placement.locates_place _ hasRoom.not_null
        (Nat.lt_of_lt_of_le positive hasRoom.size_le) hasRoom.stop_le
    · have other : Region.heap block ≠ .heap m.heap.size := fun same => new (Region.heap.inj same)
      rw [region?_allocate, if_neg other] at live
      show (m.placement.place _ s).Locates _
      rw [Placement.Locates, Placement.addressWord_place_of_ne other]
      exact hasRoom.address?_place (h.blocks block live) live

/-- What a descriptor points to is found, if that is a live block or nothing, and one of the tables
    or none. -/
theorem finds (h : m.WellPlaced) {d : Descriptor}
    (base : ∀ a, d.base = some a → ∃ block, a = ⟨.heap block, 0⟩ ∧ (m.region? (.heap block)).isSome)
    (table : ∀ ty, d.addendumType = some ty → m.tables[ty.number]? = some ty) : m.Finds d where
  base := by
    intro a there
    obtain ⟨block, rfl, live⟩ := base a there
    exact h.blocks block live
  type := type?_tableWord h.tables table

end WellPlaced

/-! ### Pointers -/

/-- Tables lie where they lay, and words for live regions stand for what they stood for. -/
structure KeepsPointers (m m' : Memory) : Prop where
  tables : m'.tables = m.tables
  table : m'.placement.table = m.placement.table
  address? : ∀ word a, m.placement.address? word = some a → (m.region? a.region).isSome →
    m'.placement.address? word = some a

/-- The base of a descriptor is null, or lies in a live region. -/
def PointsAtLive (m : Memory) (d : Descriptor) : Prop :=
  ∀ a, d.base = some a → (m.region? a.region).isSome

namespace KeepsPointers

/-- Where nothing is moved, all words keep their meaning. -/
theorem of_placement (placement : m'.placement = m.placement) (tables : m'.tables = m.tables) :
    m.KeepsPointers m' where
  tables := tables
  table := by rw [placement]
  address? := fun word a there _ => by rw [placement, there]

/-- Where nothing is moved later, words keep the meaning that they have kept so far. -/
theorem trans_of_placement (h : m.KeepsPointers m') (placement : m''.placement = m'.placement)
    (tables : m''.tables = m'.tables) : m.KeepsPointers m'' where
  tables := tables.trans h.tables
  table := by rw [placement, h.table]
  address? := fun word a there live => by rw [placement, h.address? word a there live]

/-- A new block takes no word from live regions. -/
theorem allocate (hasRoom : m.HasRoom size s) : m.KeepsPointers (m.allocate size s).2 where
  tables := rfl
  table := rfl
  address? := fun _ _ there live => hasRoom.address?_place there live

/-- A word for a table stands for it as before. -/
theorem type? (h : m.KeepsPointers m') : m'.type? = m.type? := by
  funext word
  simp only [Memory.type?, table?, h.tables, h.table]

/-- A descriptor without storage, or with storage that is live, is read as before. -/
theorem descriptor? (h : m.KeepsPointers m') {t : Address} {d : Descriptor}
    (there : m.descriptor? t = some d) (live : m.PointsAtLive d)
    (spans : ∀ n, m'.spans t n = m.spans t n)
    (bytes : ∀ b : Address, b.InSpan t descriptorBytes → m'.byte? b = m.byte? b) :
    m'.descriptor? t = some d := by
  have room := spans_of_descriptor? there
  have fields := descriptor?_eq_some_iff.mp there
  have same (i : Nat) (lt : i < descriptorBytes) : m'.byte? (t + i) = m.byte? (t + i) :=
    bytes _ (Address.inSpan_add lt)
  -- The base is the same word, and a word for a live region or for null.
  have base : (m'.word? t).map m'.placement.address? = some d.base := by
    obtain ⟨word, read, target⟩ := Option.map_eq_some_iff.mp fields.base
    have read' : m'.word? t = some word := by
      rw [← read, word?, word?, read?_congr (spans 8) fun b inside =>
        bytes b (inside.of_le (by decide))]
    rw [read', Option.map_some]
    cases base : d.base with
    | none =>
      rw [Placement.address?_eq_none_iff.mpr
        (Placement.address?_eq_none_iff.mp (target.trans base))]
    | some a => rw [h.address? word a (target.trans base) (live a base)]
  have flags : m'.byte? (t + 20) = some d.flags := by rw [same 20 (by decide), fields.flags]
  have type : (m.word? (t + 384)).bind m'.type? = some d.addendumType := by
    rw [h.type?, fields.type]
  have fields' :=
    fields.congr room ((spans _).trans room) (fun i _ lt _ => same i lt) base flags type
  rw [descriptor?_eq_some_iff.mpr fields']
  cases d
  rfl

end KeepsPointers

end Memory

end DerivedTypes
