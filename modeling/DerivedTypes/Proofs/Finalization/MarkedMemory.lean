import DerivedTypes.Proofs.DerivedType.Marks
import DerivedTypes.Proofs.Teardown.Account

namespace DerivedTypes

/-!
# Memory with other marks

Two memories are the same but for marks if their tables differ in marks of static descriptors only,
and their bytes in the marks of some descriptors only (`Memory.SameButMarks`). Descriptors are then
read alike from both (`Memory.Ready.readsAlike`), as long as no mark lies among the other bytes of a
descriptor. That cannot happen where descriptors own a forest, because all that is reached from them
lies apart (`Memory.Ready.apart_of_reaches`). After the same releases the memories are the same but
for marks again (`Memory.SameButMarks.tornDown`).
-/

namespace Memory

variable {m m' : Memory} {P : Descriptor → Prop} {ds : List Descriptor} {slots : List Address}
  {f : Forest} {s t : Address}

/-! ### What is reached lies apart -/

/-- A descriptor that is reached from the storage of descriptors that own it. -/
def ReachesInside (m : Memory) (ds : List Descriptor) (s : Address) : Prop :=
  ∃ d ∈ ds, d.isOwner = true ∧ m.Reaches d.slots s

/-- What is reached is one of the descriptors, or lies inside what they own. -/
theorem Reaches.mem_or_inside (h : m.Reaches slots s) :
    s ∈ slots ∨ m.ReachesInside (slots.map m.slotValue) s := by
  induction h with
  | here mem => exact .inl mem
  | inside _ there owner mem ih =>
    rcases ih with top | ⟨d, top, owner', within⟩
    · refine .inr ⟨_, List.mem_map_of_mem top, ?_, ?_⟩
      · rw [slotValue_of_descriptor? there, owner]
      · rw [slotValue_of_descriptor? there]
        exact .here mem
    · exact .inr ⟨d, top, owner', .inside within there owner mem⟩

/-- Only the first descriptor or the others lead inside. -/
theorem ReachesInside.cons_cases {d : Descriptor} (h : m.ReachesInside (d :: ds) s) :
    d.isOwner = true ∧ m.Reaches d.slots s ∨ m.ReachesInside ds s := by
  obtain ⟨e, mem, owner, reached⟩ := h
  rcases List.mem_cons.mp mem with rfl | mem
  · exact .inl ⟨owner, reached⟩
  · exact .inr ⟨e, mem, owner, reached⟩

/-- What lies inside is in a block of the forest. -/
theorem Owns.region_of_reachesInside (h : m.Owns P ds f) (inside : m.ReachesInside ds s) :
    ∃ b ∈ f.numbers, s.region = .heap b := by
  induction h with
  | nil =>
    obtain ⟨_, mem, _⟩ := inside
    cases mem
  | idle _ idle _ ih =>
    rcases inside.cons_cases with ⟨owner, _⟩ | inside
    · simp [idle] at owner
    · exact ih inside
  | @own d rest block size contained f _ backs _ _ _ insideIh restIh =>
    simp only [Forest.mem_numbers_cons]
    rcases inside.cons_cases with ⟨_, reached⟩ | inside
    · rcases reached.mem_or_inside with mem | inside
      · exact ⟨block, .inr (.inl rfl), (backs.slot_inside mem).1⟩
      · obtain ⟨b, mem, region⟩ := insideIh inside
        exact ⟨b, .inl mem, region⟩
    · obtain ⟨b, mem, region⟩ := restIh inside
      exact ⟨b, .inr (.inr mem), region⟩

/-- Descriptors that lie apart, outside of the blocks of a forest, lie apart from all that is
    reached from them, if what lies inside is in these blocks and apart. -/
theorem apart_of_reaches
    (apart : slots.Pairwise fun s t => Address.Apart s descriptorBytes t descriptorBytes)
    (outside : ∀ s ∈ slots, ∀ b ∈ f.numbers, s.region ≠ .heap b)
    (region : ∀ s, m.ReachesInside (slots.map m.slotValue) s → ∃ b ∈ f.numbers, s.region = .heap b)
    (inside : ∀ s t, m.ReachesInside (slots.map m.slotValue) s →
      m.ReachesInside (slots.map m.slotValue) t → s ≠ t →
      Address.Apart s descriptorBytes t descriptorBytes)
    (reached : m.Reaches slots s) (reached' : m.Reaches slots t) (ne : s ≠ t) :
    Address.Apart s descriptorBytes t descriptorBytes := by
  have elsewhere {u v : Address} (top : u ∈ slots)
      (below : m.ReachesInside (slots.map m.slotValue) v) :
      Address.Apart u descriptorBytes v descriptorBytes := by
    obtain ⟨b, mem, same⟩ := region v below
    exact Address.apart_of_region_ne _ _ fun shared => outside u top b mem (shared.trans same)
  rcases reached.mem_or_inside with top | below
  · rcases reached'.mem_or_inside with top' | below'
    · exact Address.apart_of_pairwise apart top top' ne
    · exact elsewhere top below'
  · rcases reached'.mem_or_inside with top' | below'
    · exact (elsewhere top' below).symm
    · exact inside s t below below' ne

/-- All that lies inside what descriptors own lies apart. -/
theorem Owns.apart_of_reachesInside (h : m.Owns P ds f) (distinct : f.Distinct)
    (inside : m.ReachesInside ds s) (inside' : m.ReachesInside ds t) (ne : s ≠ t) :
    Address.Apart s descriptorBytes t descriptorBytes := by
  induction h generalizing s t with
  | nil =>
    obtain ⟨_, mem, _⟩ := inside
    cases mem
  | idle _ idle _ ih =>
    rcases inside.cons_cases with ⟨owner, _⟩ | inside
    · simp [idle] at owner
    · rcases inside'.cons_cases with ⟨owner, _⟩ | inside'
      · simp [idle] at owner
      · exact ih distinct inside inside' ne
  | @own d rest block size contained f fine backs readable contents others insideIh restIh =>
    have distinct' : ((Forest.cons block size contained .nil).append f).Distinct := distinct
    obtain ⟨distinctTree, distinctRest, disjoint⟩ := distinct'.of_append
    -- The first tree and the others have no block in common.
    have tree : m.Owns P [d] (.cons block size contained .nil) :=
      .own fine backs readable contents .nil
    have across {u v : Address} (first : d.isOwner = true ∧ m.Reaches d.slots u)
        (later : m.ReachesInside rest v) :
        Address.Apart u descriptorBytes v descriptorBytes := by
      obtain ⟨b, mem, region⟩ := tree.region_of_reachesInside ⟨d, List.mem_cons_self, first⟩
      obtain ⟨c, mem', region'⟩ := others.region_of_reachesInside later
      refine Address.apart_of_region_ne _ _ fun same => disjoint b mem ?_
      rw [region, region'] at same
      cases same
      exact mem'
    rcases inside.cons_cases with first | later
    · rcases inside'.cons_cases with first' | later'
      · exact apart_of_reaches (Descriptor.pairwise_slots backs.typed)
          (fun u mem b there same => distinctTree.not_mem_inside (by
            rw [(backs.slot_inside mem).1] at same
            cases same
            exact there))
          (fun u => contents.region_of_reachesInside)
          (fun u v => insideIh distinctTree.of_inside) first.2 first'.2 ne
      · exact across first later'
    · rcases inside'.cons_cases with first' | later'
      · exact (across first' later).symm
      · exact restIh distinctRest later later' ne

/-- Where descriptors own a forest, all that is reached from them lies apart. -/
theorem Ready.apart_of_reaches (h : m.Ready P slots f) (reached : m.Reaches slots s)
    (reached' : m.Reaches slots t) (ne : s ≠ t) :
    Address.Apart s descriptorBytes t descriptorBytes :=
  Memory.apart_of_reaches h.apart h.outside (fun _ => h.owns.region_of_reachesInside)
    (fun _ _ => h.owns.apart_of_reachesInside h.distinct) reached reached' ne

/-! ### Marks -/

/-- Memory that differs in nothing but marks: those of some descriptors, and those of static
    descriptors in the tables. A descriptor has its flags at offset 20. -/
structure SameButMarks (m m' : Memory) (marked : Address → Prop) : Prop where
  placement : m'.placement = m.placement
  tables : m'.tables.map (·.withoutMarks) = m.tables.map (·.withoutMarks)
  heapSize : m'.heap.size = m.heap.size
  size : ∀ region, (m'.region? region).map (·.size) = (m.region? region).map (·.size)
  flags : ∀ s, marked s → (m'.byte? (s + 20)).map unmark = (m.byte? (s + 20)).map unmark
  byte? : ∀ a : Address, (∀ s, marked s → a ≠ s + 20) → m'.byte? a = m.byte? a

/-- A descriptor may lie at an address besides those that are reached: it is one of them or apart
    from all. -/
def MayHold (m : Memory) (slots : List Address) (s : Address) : Prop :=
  m.Reaches slots s ∨ ∀ t, m.Reaches slots t → Address.Apart s descriptorBytes t descriptorBytes

/-- The descriptor at an address is the same in another memory, but for marks. -/
def ReadsAlike (m m' : Memory) (s : Address) : Prop :=
  ∀ d, m.descriptor? s = some d → ∃ d', m'.descriptor? s = some d' ∧
  d'.withoutMarks = d.withoutMarks

namespace SameButMarks

variable {marked : Address → Prop}

/-- A memory differs from itself in no marks. -/
theorem refl (m : Memory) (marked : Address → Prop) : m.SameButMarks m marked where
  placement := rfl
  tables := rfl
  heapSize := rfl
  size := fun _ => rfl
  flags := fun _ _ => rfl
  byte? := fun _ _ => rfl

/-- A descriptor gets other flags that differ in the mark. -/
theorem of_write {old new : UInt8} (room : m.spans s descriptorBytes)
    (flags : m.byte? (s + 20) = some old) (same : unmark new = unmark old) :
    m.SameButMarks (m.write (s + 20) [new]) (· = s) := by
  have part : m.spans (s + 20) 1 := spans_mono room (by decide)
  exact {
    placement := placement_write ..
    tables := by rw [tables_write]
    heapSize := size_heap_write ..
    size := size_region?_write m (s + 20) [new]
    flags := by
      rintro t rfl
      have written : (m.write (t + 20) [new]).byte? (t + 20) = some new := by
        rw [byte?_write part, if_pos ⟨rfl, Nat.le_refl _, Nat.lt_succ_self _⟩, Nat.sub_self]
        rfl
      rw [written, flags, Option.map_some, Option.map_some, same]
    byte? := by
      intro a other
      refine byte?_write_of_not_inSpan part fun inside => ?_
      obtain ⟨i, lt, rfl⟩ := inside.exists_add
      obtain rfl : i = 0 := by simpa using lt
      exact other s rfl (Address.add_zero _) }

/-- Words stand for types that differ in marks only. -/
theorem type? (h : m.SameButMarks m' marked) (word : UInt64) :
    (m'.type? word).map (·.map (·.withoutMarks)) = (m.type? word).map (·.map (·.withoutMarks)) := by
  have tables (i : Nat) : (m'.tables[i]?).map (·.withoutMarks) =
      (m.tables[i]?).map (·.withoutMarks) := by
    rw [← Array.getElem?_map, ← Array.getElem?_map, h.tables]
  have count : m'.tables.size = m.tables.size := by simpa using congrArg Array.size h.tables
  rw [Memory.type?, Memory.type?, table?, table?, h.placement, count]
  by_cases null : word = 0
  · rw [if_pos null, if_pos null]
  · rw [if_neg null, if_neg null]
    cases (List.range m.tables.size).find? (m.placement.table · = word) with
    | none => rfl
    | some i =>
      simp only [Option.bind_some, Option.map_map]
      have both := congrArg (Option.map some) (tables i)
      rw [Option.map_map, Option.map_map] at both
      exact both

/-- A descriptor whose other bytes have no mark is read alike. -/
theorem readsAlike (h : m.SameButMarks m' marked) (room : m.spans s descriptorBytes)
    (apart : ∀ i < descriptorBytes, i ≠ 20 → ∀ t, marked t → s + i ≠ t + 20) :
    m.ReadsAlike m' s := by
  intro d there
  have fields := descriptor?_eq_some_iff.mp there
  have room' : m'.spans s descriptorBytes := (spans_of_size (h.size s.region) _).trans room
  have byte {i : Nat} (lt : i < descriptorBytes) (ne : i ≠ 20) :
      m'.byte? (s + i) = m.byte? (s + i) :=
    h.byte? (s + i) (apart i lt ne)
  -- The base is the same, and flags and type are the same but for marks.
  have word : m'.word? s = m.word? s := by
    rw [word?, word?, read?_congr (spans_of_size (h.size s.region) 8) fun b inside => ?_]
    obtain ⟨i, lt, rfl⟩ := inside.exists_add
    exact byte (by simp only [descriptorBytes]; omega) (by omega)
  have flags : (m'.byte? (s + 20)).map unmark = some (unmark d.flags) := by
    have before : (m.byte? (s + 20)).map unmark = some (unmark d.flags) := by
      rw [fields.flags, Option.map_some]
    by_cases here : ∃ t, marked t ∧ s + 20 = t + 20
    · obtain ⟨t, mark, same⟩ := here
      rw [same] at before ⊢
      exact (h.flags t mark).trans before
    · rw [h.byte? (s + 20) fun t mark same => here ⟨t, mark, same⟩, before]
  obtain ⟨newFlags, flagsRead, sameFlags⟩ := Option.map_eq_some_iff.mp flags
  obtain ⟨link, linkRead, typeRead⟩ := Option.bind_eq_some_iff.mp fields.type
  have type : (m'.type? link).map (·.map (·.withoutMarks)) =
      some (d.addendumType.map (·.withoutMarks)) := by
    rw [h.type? link, typeRead, Option.map_some]
  obtain ⟨newType, typeRead', sameType⟩ := Option.map_eq_some_iff.mp type
  have base : (m'.word? s).map m'.placement.address? = some d.base := by
    rw [word, h.placement, fields.base]
  have type' : (m.word? (s + 384)).bind m'.type? = some newType := by
    rw [linkRead, Option.bind_some, typeRead']
  have fields' := fields.congr room room' (fun i _ lt ne => byte lt ne) base flagsRead type'
  refine ⟨_, descriptor?_eq_some_iff.mpr fields', ?_⟩
  rw [Descriptor.withoutMarks_eq, Descriptor.withoutMarks_eq, sameFlags, sameType]

/-- After the same releases, memory is the same but for marks again. -/
theorem tornDown {n n' : Memory} {blocks : List Nat} {owners : List Address}
    (h : m.SameButMarks m' marked) (torn : m.TornDown n blocks owners)
    (torn' : m'.TornDown n' blocks owners) : n.SameButMarks n' marked := by
  -- A byte is gone or null in both, or neither has changed.
  have byte (a : Address) : n'.byte? a = n.byte? a ∨ n'.byte? a = m'.byte? a ∧
      n.byte? a = m.byte? a := by
    by_cases freed : ∃ b ∈ blocks, a.region = .heap b
    · obtain ⟨b, mem, region⟩ := freed
      rw [Memory.byte?, Memory.byte?, region, torn.gone b mem, torn'.gone b mem]
      exact .inl rfl
    · have outside : ∀ b ∈ blocks, a.region ≠ .heap b := fun b mem same => freed ⟨b, mem, same⟩
      by_cases base : ∃ s ∈ owners, a.InSpan s 8
      · obtain ⟨s, mem, inside⟩ := base
        have outside' : ∀ b ∈ blocks, s.region ≠ .heap b := inside.1 ▸ outside
        rw [torn.cleared s mem outside' a inside, torn'.cleared s mem outside' a inside]
        exact .inl rfl
      · have plain : ∀ s ∈ owners, ¬ a.InSpan s 8 := fun s mem inside => base ⟨s, mem, inside⟩
        exact .inr ⟨torn'.kept a outside plain, torn.kept a outside plain⟩
  exact {
    placement := by rw [torn'.placement, h.placement, torn.placement]
    tables := by rw [torn'.tables, h.tables, torn.tables]
    heapSize := by rw [torn'.heapSize, h.heapSize, torn.heapSize]
    size := by
      intro region
      by_cases freed : ∃ b ∈ blocks, region = .heap b
      · obtain ⟨b, mem, rfl⟩ := freed
        rw [torn.gone b mem, torn'.gone b mem]
      · have outside : ∀ b ∈ blocks, region ≠ .heap b := fun b mem same => freed ⟨b, mem, same⟩
        rw [torn.size region outside, torn'.size region outside, h.size region]
    flags := by
      intro s mark
      rcases byte (s + 20) with same | ⟨kept', kept⟩
      · rw [same]
      · rw [kept', kept, h.flags s mark]
    byte? := by
      intro a plain
      rcases byte a with same | ⟨kept', kept⟩
      · exact same
      · rw [kept', kept, h.byte? a plain] }

end SameButMarks

/-- All descriptors that are reached are read alike. -/
theorem Ready.readsAlike {marked : Address → Prop} (h : m.Ready P slots f)
    (same : m.SameButMarks m' marked) (fair : ∀ t, marked t → m.MayHold slots t)
    (reached : m.Reaches slots s) (room : m.spans s descriptorBytes) :
    m.ReadsAlike m' s := by
  refine same.readsAlike room fun i lt ne t mark here => ?_
  have flags : (t + 20).InSpan t descriptorBytes := Address.inSpan_add (by decide)
  have inside : (t + 20).InSpan s descriptorBytes := here ▸ Address.inSpan_add lt
  rcases fair t mark with reached' | apart
  · by_cases eq : s = t
    · subst eq
      have offsets := congrArg Address.offset here
      simp only [Address.offset_add] at offsets
      omega
    · exact h.apart_of_reaches reached reached' eq _ inside flags
  · exact apart s reached _ flags inside

end Memory

end DerivedTypes
