import DerivedTypes.Proofs.Ownership.Releases

namespace DerivedTypes

/-!
# Memory before and after releases

A teardown releases one descriptor after the other. What a release needs of memory is
`Memory.Ready`, and what it leaves of memory is `Memory.TornDown`: blocks are gone, the descriptors
that owned storage have lost their bases, and no other byte has changed. Where the contents of
changed descriptors do not matter, `Memory.Freed` says enough.
-/

/-! ### Memory after releases -/

namespace Memory

/-- Blocks were freed, and of all other memory at most some descriptors changed. -/
structure Freed (m m' : Memory) (blocks : List Nat) (slots : List Address) : Prop where
  placement : m'.placement = m.placement
  tables : m'.tables = m.tables
  heapSize : m'.heap.size = m.heap.size
  gone : ∀ b ∈ blocks, m'.region? (.heap b) = none
  size : ∀ region, (∀ b ∈ blocks, region ≠ .heap b) →
    (m'.region? region).map (·.size) = (m.region? region).map (·.size)
  byte? : ∀ a : Address, (∀ b ∈ blocks, a.region ≠ .heap b) →
    (∀ s ∈ slots, ¬ a.InSpan s descriptorBytes) → m'.byte? a = m.byte? a

namespace Freed

variable {m m' m'' : Memory} {blocks blocks' : List Nat} {slots slots' : List Address}

/-- Nothing is freed. -/
theorem refl (m : Memory) : m.Freed m [] [] :=
  ⟨rfl, rfl, rfl, fun _ mem => (nomatch mem), fun _ _ => rfl, fun _ _ _ => rfl⟩

/-- What is freed one after the other is freed. -/
theorem trans (h : m.Freed m' blocks slots) (h' : m'.Freed m'' blocks' slots') :
    m.Freed m'' (blocks ++ blocks') (slots ++ slots') where
  placement := h'.placement.trans h.placement
  tables := h'.tables.trans h.tables
  heapSize := h'.heapSize.trans h.heapSize
  gone := by
    intro b mem
    by_cases later : b ∈ blocks'
    · exact h'.gone b later
    · -- A block that is gone has no size, and the second change keeps that.
      have first : b ∈ blocks := (List.mem_append.mp mem).resolve_right later
      have kept := h'.size (.heap b) fun c there same => later (by cases same; exact there)
      rw [h.gone b first] at kept
      exact Option.map_eq_none_iff.mp kept
  size := fun region outside => by
    rw [h'.size region fun b mem => outside b (List.mem_append_right _ mem),
      h.size region fun b mem => outside b (List.mem_append_left _ mem)]
  byte? := fun a outside apart => by
    rw [h'.byte? a (fun b mem => outside b (List.mem_append_right _ mem))
        fun s mem => apart s (List.mem_append_right _ mem),
      h.byte? a (fun b mem => outside b (List.mem_append_left _ mem))
        fun s mem => apart s (List.mem_append_left _ mem)]

/-- Descriptors in freed blocks need no mention, and blocks may be listed in another order. -/
theorem congr (h : m.Freed m' blocks slots) (same : ∀ b, b ∈ blocks ↔ b ∈ blocks')
    (covered : ∀ s ∈ slots, s ∈ slots' ∨ ∃ b ∈ blocks, s.region = .heap b) :
    m.Freed m' blocks' slots' where
  placement := h.placement
  tables := h.tables
  heapSize := h.heapSize
  gone := fun b mem => h.gone b ((same b).mpr mem)
  size := fun region outside => h.size region fun b mem => outside b ((same b).mp mem)
  byte? := by
    intro a outside apart
    refine h.byte? a (fun b mem => outside b ((same b).mp mem)) fun s mem inside => ?_
    rcases covered s mem with kept | ⟨b, freed, region⟩
    · exact apart s kept inside
    · exact outside b ((same b).mp freed) (inside.1.trans region)

/-- A block is freed. -/
theorem of_release (m : Memory) (block : Nat) : m.Freed (m.release block) [block] [] where
  placement := rfl
  tables := rfl
  heapSize := size_heap_release ..
  gone := fun b mem => by
    rw [List.mem_singleton.mp mem, region?_release, if_pos rfl]
  size := fun region outside => by
    rw [region?_release, if_neg (outside block List.mem_cons_self)]
  byte? := fun a outside _ => by
    refine byte?_congr ?_
    rw [region?_release, if_neg (outside block List.mem_cons_self)]

/-- A descriptor loses its base. -/
theorem of_clearBase {s : Address} (room : m.spans s descriptorBytes) :
    m.Freed (m.clearBase s) [] [s] where
  placement := placement_write ..
  tables := tables_write ..
  heapSize := size_heap_write ..
  gone := fun _ mem => nomatch mem
  size := fun region _ => size_region?_write ..
  byte? := fun a _ apart => by
    have part : m.spans s 8 := spans_of_le room (by decide)
    refine byte?_write_of_not_inSpan (by simpa using part) fun inside => ?_
    rw [List.length_replicate] at inside
    exact apart s List.mem_cons_self (inside.of_le (by decide))

/-- Outside the blocks, as many bytes are there as before. -/
theorem spans (h : m.Freed m' blocks slots) {a : Address}
    (outside : ∀ b ∈ blocks, a.region ≠ .heap b) (n : Nat) : m'.spans a n = m.spans a n :=
  spans_of_size (h.size a.region outside) n

/-- A span outside the freed blocks that no descriptor shares is as it was. -/
theorem agrees (h : m.Freed m' blocks slots) {a : Address} {n : Nat}
    (outside : ∀ b ∈ blocks, a.region ≠ .heap b)
    (apart : ∀ s ∈ slots, Address.Apart a n s descriptorBytes) : m.Agrees m' a n where
  placement := h.placement
  tables := h.tables
  spans := h.spans outside n
  byte? := fun b inside => h.byte? b (fun c mem => inside.1 ▸ outside c mem) fun s mem =>
    apart s mem b inside

/-- A region that was not freed and has none of the descriptors is as it was. -/
theorem region? (h : m.Freed m' blocks slots) {region : Region}
    (outside : ∀ b ∈ blocks, region ≠ .heap b) (apart : ∀ s ∈ slots, s.region ≠ region) :
    m'.region? region = m.region? region :=
  region?_ext (h.size region outside) fun _ =>
    h.byte? _ outside fun s mem inside => apart s mem inside.1.symm

end Freed

/-- Blocks were freed, descriptors that owned storage lost their bases, and nothing else changed. -/
structure TornDown (m m' : Memory) (blocks : List Nat) (owners : List Address) : Prop extends
    m.Freed m' blocks owners where
  cleared : ∀ s ∈ owners, (∀ b ∈ blocks, s.region ≠ .heap b) →
    ∀ a : Address, a.InSpan s 8 → m'.byte? a = some 0
  kept : ∀ a : Address, (∀ b ∈ blocks, a.region ≠ .heap b) → (∀ s ∈ owners, ¬ a.InSpan s 8) →
    m'.byte? a = m.byte? a

namespace TornDown

variable {m m' m'' : Memory} {blocks blocks' : List Nat} {owners owners' : List Address}

/-- Nothing is torn down. -/
theorem refl (m : Memory) : m.TornDown m [] [] where
  toFreed := .refl m
  cleared := fun _ mem => nomatch mem
  kept := fun _ _ _ => rfl

/-- What is torn down one after the other is torn down. -/
theorem trans (h : m.TornDown m' blocks owners) (h' : m'.TornDown m'' blocks' owners') :
    m.TornDown m'' (blocks ++ blocks') (owners ++ owners') where
  toFreed := h.toFreed.trans h'.toFreed
  cleared := by
    intro s mem outside a inside
    have first := fun b mem => outside b (List.mem_append_left _ mem)
    have second := fun b mem => outside b (List.mem_append_right _ mem)
    -- A byte that the second change does not clear is kept, and the first one cleared it.
    by_cases again : ∃ t ∈ owners', a.InSpan t 8
    · obtain ⟨t, there, within⟩ := again
      exact h'.cleared t there (fun b mem => by rw [← within.1, inside.1]; exact second b mem) a
        within
    · rcases List.mem_append.mp mem with mem | mem
      · rw [h'.kept a (inside.1 ▸ second) fun t there within => again ⟨t, there, within⟩]
        exact h.cleared s mem first a inside
      · exact absurd ⟨s, mem, inside⟩ again
  kept := by
    intro a outside apart
    rw [h'.kept a (fun b mem => outside b (List.mem_append_right _ mem))
        fun s mem => apart s (List.mem_append_right _ mem),
      h.kept a (fun b mem => outside b (List.mem_append_left _ mem))
        fun s mem => apart s (List.mem_append_left _ mem)]

/-- Descriptors in freed blocks need no mention. -/
theorem congr (h : m.TornDown m' blocks owners) (same : ∀ b, b ∈ blocks ↔ b ∈ blocks')
    (still : ∀ s ∈ owners', s ∈ owners)
    (covered : ∀ s ∈ owners, s ∈ owners' ∨ ∃ b ∈ blocks, s.region = .heap b) :
    m.TornDown m' blocks' owners' where
  toFreed := h.toFreed.congr same covered
  cleared :=
    fun s mem outside => h.cleared s (still s mem) fun b there => outside b ((same b).mp there)
  kept := by
    intro a outside apart
    refine h.kept a (fun b mem => outside b ((same b).mp mem)) fun s mem inside => ?_
    rcases covered s mem with kept | ⟨b, freed, region⟩
    · exact apart s kept inside
    · exact outside b ((same b).mp freed) (inside.1.trans region)

/-- A block is freed. -/
theorem of_release (m : Memory) (block : Nat) : m.TornDown (m.release block) [block] [] where
  toFreed := .of_release m block
  cleared := fun _ mem => nomatch mem
  kept := fun a outside _ => (Freed.of_release m block).byte? a outside fun _ mem => nomatch mem

/-- A descriptor loses its base. -/
theorem of_clearBase {s : Address} (room : m.spans s descriptorBytes) :
    m.TornDown (m.clearBase s) [] [s] where
  toFreed := .of_clearBase room
  cleared := by
    intro t mem _ a inside
    obtain rfl := List.mem_singleton.mp mem
    rw [clearBase, byte?_fillZero (spans_of_le room (by decide))]
    exact if_pos inside
  kept := by
    intro a _ apart
    rw [clearBase, byte?_fillZero (spans_of_le room (by decide))]
    exact if_neg (apart s List.mem_cons_self)

end TornDown

/-! ### Memory before releases -/

/-- Descriptors in memory own a forest: they lie apart from each other and outside all blocks of the
    forest, and these blocks are all different. -/
structure Ready (m : Memory) (P : Descriptor → Prop) (slots : List Address) (f : Forest) :
    Prop where
  apart : slots.Pairwise fun s t => Address.Apart s descriptorBytes t descriptorBytes
  spans : ∀ s ∈ slots, m.spans s descriptorBytes
  readable : ∀ s ∈ slots, (m.descriptor? s).isSome
  owns : m.Owns P (slots.map m.slotValue) f
  distinct : f.Distinct
  outside : ∀ s ∈ slots, ∀ b ∈ f.numbers, s.region ≠ .heap b

namespace Ready

variable {m : Memory} {P : Descriptor → Prop} {slots slots' : List Address} {f : Forest}

/-- The order of the descriptors does not matter, but for the order of the trees. -/
theorem perm (h : m.Ready P slots f) (reordered : slots.Perm slots') :
    ∃ g, m.Ready P slots' g ∧ f.Similar g := by
  obtain ⟨g, owns, similar⟩ := h.owns.perm (reordered.map _)
  refine ⟨g, ⟨?_, ?_, ?_, owns, similar.distinct h.distinct, ?_⟩, similar⟩
  · exact reordered.pairwise h.apart fun apart => apart.symm
  · exact fun s mem => h.spans s (reordered.mem_iff.mpr mem)
  · exact fun s mem => h.readable s (reordered.mem_iff.mpr mem)
  · exact fun s mem b there => h.outside s (reordered.mem_iff.mpr mem) b (similar.mem_iff.mpr there)

/-- Descriptors are ready in every memory where their regions and the blocks are the same. -/
theorem congr {m' : Memory} (h : m.Ready P slots f) (placement : m'.placement = m.placement)
    (tables : m'.tables = m.tables)
    (regions : ∀ s ∈ slots, m'.region? s.region = m.region? s.region)
    (blocks : ∀ b ∈ f.numbers, m'.region? (.heap b) = m.region? (.heap b)) :
    m'.Ready P slots f := by
  have spans : ∀ s ∈ slots, m'.spans s descriptorBytes := fun s mem => by
    rw [spans_congr (regions s mem)]
    exact h.spans s mem
  have read : ∀ s ∈ slots, m'.descriptor? s = m.descriptor? s := fun s mem =>
    (agrees_of_region placement tables (regions s mem) _).descriptor? (h.spans s mem)
  have values : slots.map m'.slotValue = slots.map m.slotValue := by
    refine List.map_congr_left fun s mem => ?_
    rw [slotValue, slotValue, read s mem]
  refine ⟨h.apart, spans, fun s mem => ?_, ?_, h.distinct, h.outside⟩
  · rw [read s mem]
    exact h.readable s mem
  · rw [values]
    exact h.owns.congr placement tables blocks

/-- The descriptors in an owned block are ready. -/
theorem of_backs {d : Descriptor} {block size : Nat} {inside rest : Forest}
    (backs : m.Backs d block size) (readable : ∀ s ∈ d.slots, (m.descriptor? s).isSome)
    (contents : m.Owns P (d.slots.map m.slotValue) inside)
    (distinct : (Forest.cons block size inside rest).Distinct) : m.Ready P d.slots inside where
  apart := Descriptor.pairwise_slots backs.typed
  spans := fun s mem => backs.spans_slot mem
  readable := readable
  owns := contents
  distinct := distinct.of_inside
  outside := by
    intro s mem b there same
    rw [(backs.slot_inside mem).1] at same
    cases same
    exact distinct.not_mem_inside there

/-- The first of several descriptors owns nothing, or it owns the first tree and the others own the
    rest. -/
theorem cons_cases {s : Address} (h : m.Ready P (s :: slots) f) :
    ∃ d, m.descriptor? s = some d ∧
      ((d.isOwner = false ∧ m.Ready P slots f) ∨
        ∃ block size inside rest, f = .cons block size inside rest ∧ m.Backs d block size ∧
          m.Ready P d.slots inside ∧ m.Ready P slots rest) := by
  obtain ⟨d, there⟩ := Option.isSome_iff_exists.mp (h.readable s List.mem_cons_self)
  -- The others are ready with the part of the forest that they own.
  have others {g : Forest} (owns : m.Owns P (slots.map m.slotValue) g) (distinct : g.Distinct)
      (sub : ∀ b ∈ g.numbers, b ∈ f.numbers) : m.Ready P slots g :=
    ⟨(List.pairwise_cons.mp h.apart).2, fun t mem => h.spans t (List.mem_cons_of_mem _ mem),
      fun t mem => h.readable t (List.mem_cons_of_mem _ mem), owns, distinct,
      fun t mem b there => h.outside t (List.mem_cons_of_mem _ mem) b (sub b there)⟩
  have owns := h.owns
  rw [List.map_cons, slotValue_of_descriptor? there] at owns
  refine ⟨d, there, ?_⟩
  cases owns with
  | idle _ idle rest => exact .inl ⟨idle, others rest h.distinct fun _ mem => mem⟩
  | @own _ _ block size inside g _ backs readable contents rest =>
    have split : ((Forest.cons block size inside .nil).append g).Distinct := h.distinct
    refine .inr ⟨block, size, inside, g, rfl, backs, .of_backs backs readable contents h.distinct,
      ?_⟩
    exact others rest split.of_append.2.1 fun b mem => by simp [mem]

/-- Some of several descriptors are ready by themselves. -/
theorem of_append (h : m.Ready P (slots ++ slots') f) : ∃ g, m.Ready P slots g := by
  have owns := h.owns
  rw [List.map_append] at owns
  obtain ⟨g, rest, rfl, first, _⟩ := owns.exists_of_append
  refine ⟨g, (List.pairwise_append.mp h.apart).1, ?_, ?_, first, h.distinct.of_append.1, ?_⟩
  · exact fun s mem => h.spans s (List.mem_append_left _ mem)
  · exact fun s mem => h.readable s (List.mem_append_left _ mem)
  · intro s mem b there
    refine h.outside s (List.mem_append_left _ mem) b ?_
    rw [Forest.numbers_append]
    exact List.mem_append_left _ there

end Ready

/-- A descriptor that owns a tree has a block, and the descriptors in it are ready. -/
theorem Owns.exists_ready {m : Memory} {P : Descriptor → Prop} {d : Descriptor} {tree : Forest}
    (h : m.Owns P [d] tree) (owner : d.isOwner = true) (distinct : tree.Distinct) :
    ∃ block size inside, tree = .cons block size inside .nil ∧ m.Backs d block size ∧
    m.Ready P d.slots inside := by
  cases h with
  | idle _ idle => simp [owner] at idle
  | @own _ _ block size inside _ _ backs readable contents others =>
    cases others with
    | nil => exact ⟨block, size, inside, rfl, backs, .of_backs backs readable contents distinct⟩

end Memory

end DerivedTypes
