import DerivedTypes.Proofs.Session.Places

namespace DerivedTypes

/-!
# Which block belongs to which place

Every block of a forest that the local descriptors own belongs to one place: `Session.exists_owners`
lists the blocks with their places. So no two places own the same block, and no block is without an
owner.
-/

namespace Memory

/-- The descriptors in the storage of an owner, with their places. -/
def contents (m : Memory) (owner : Descriptor) : List (Place × Descriptor) :=
  owner.slots.map fun a => (.stored a, m.slotValue a)

/-- A descriptor is one of several, which are given with their places, or lies in the storage of one
    of them, at any depth. -/
inductive Within (m : Memory) : List (Place × Descriptor) → Place → Descriptor → Prop
  | here {items : List (Place × Descriptor)} {p : Place} {d : Descriptor} (mem : (p, d) ∈ items) :
      Within m items p d
  | inside {items : List (Place × Descriptor)} {p q : Place} {d owner : Descriptor}
      (mem : (q, owner) ∈ items) (within : Within m (m.contents owner) p d) : Within m items p d

namespace Within

variable {m : Memory} {items : List (Place × Descriptor)} {p q : Place} {d owner : Descriptor}
  {a : Address}

/-- What lies in the storage of a descriptor lies as deep as the descriptor, and one level
    deeper. -/
theorem component (h : m.Within items q owner) (slot : a ∈ owner.slots)
    (there : m.descriptor? a = some d) :
    m.Within items (.stored a) d := by
  induction h with
  | here mem =>
    refine .inside mem (.here (List.mem_map.mpr ⟨a, slot, ?_⟩))
    rw [slotValue_of_descriptor? there]
  | inside mem _ ih => exact .inside mem (ih slot)

/-- Nothing lies within no descriptors. -/
theorem not_nil (h : m.Within [] p d) : False := by
  cases h with
  | here mem => cases mem
  | inside mem _ => cases mem

/-- A descriptor is the first one, or lies in the storage of the first one, or belongs to the
    others. -/
theorem of_cons (h : m.Within ((q, owner) :: items) p d) :
    (p = q ∧ d = owner) ∨ m.Within (m.contents owner) p d ∨ m.Within items p d := by
  cases h with
  | here mem =>
    rcases List.mem_cons.mp mem with same | later
    · cases same
      exact .inl ⟨rfl, rfl⟩
    · exact .inr (.inr (.here later))
  | inside mem within =>
    rcases List.mem_cons.mp mem with same | later
    · cases same
      exact .inr (.inl within)
    · exact .inr (.inr (.inside later within))

end Within

end Memory

namespace Session

variable {s : Session} {P : Descriptor → Prop}

/-- The local descriptors with their places. -/
def items (s : Session) : List (Place × Descriptor) :=
  s.locals.zipIdx.map fun (d, index) => (.localVariable index, d)

/-- The items are the local descriptors. -/
theorem map_snd_items (s : Session) : s.items.map (·.2) = s.locals := by
  rw [items, List.map_map]
  exact List.zipIdx_map_fst ..

/-- An item is a local variable with its descriptor. -/
theorem mem_items {p : Place} {d : Descriptor} :
    (p, d) ∈ s.items ↔ ∃ index, p = .localVariable index ∧ s.locals[index]? = some d := by
  simp only [items, List.mem_map, Prod.exists, Prod.mk.injEq, List.mem_zipIdx_iff_getElem?]
  constructor
  · rintro ⟨d, index, there, rfl, rfl⟩
    exact ⟨index, rfl, there⟩
  · rintro ⟨index, rfl, there⟩
    exact ⟨d, index, there, rfl, rfl⟩

/-- What a session holds lies within the local descriptors. -/
theorem Holds.within {p : Place} {d : Descriptor} (h : s.Holds p d) :
    s.machine.memory.Within s.items p d := by
  induction h with
  | localVariable there => exact .here (mem_items.mpr ⟨_, rfl, there⟩)
  | component _ slot there ih => exact ih.component slot there

/-- The blocks that held descriptors own, with the places of their owners. -/
theorem exists_owners_of_items {ds : List Descriptor} {f : Forest}
    (owns : s.machine.memory.Owns P ds f)
    (owners : ∀ d, P d → d.isAllocated = true → d.isOwner = true) :
    ∀ items : List (Place × Descriptor), items.map (·.2) = ds → (∀ x ∈ items, s.Holds x.1 x.2) →
      ∃ placed : List (Nat × Place), placed.map (·.1) = f.numbers ∧
        (∀ p d b, s.machine.memory.Within items p d →
          d.base = some ⟨.heap b, 0⟩ → (b, p) ∈ placed) ∧
        ∀ x ∈ placed, ∃ d, s.Holds x.2 d ∧ d.base = some ⟨.heap x.1, 0⟩ := by
  -- The induction is on who owns what, so the places are those of the descriptors at hand: local
  -- ones at first, and those in one block further inside.
  induction owns with
  | nil =>
    intro items same held
    obtain rfl := List.map_eq_nil_iff.mp same
    exact ⟨[], rfl, fun _ _ _ within _ => within.not_nil.elim, nofun⟩
  | @idle d rest f fine idle _ ih =>
    intro items same held
    obtain ⟨⟨q, owner⟩, items, rfl, rfl, rfl⟩ := List.map_eq_cons_iff.mp same
    obtain ⟨placed, numbers, complete, sound⟩ :=
      ih items rfl fun x mem => held x (List.mem_cons_of_mem _ mem)
    refine ⟨placed, numbers, fun p e b within base => ?_, sound⟩
    -- The first descriptor has no storage, so nothing lies in it.
    have unallocated : owner.isAllocated = false := by
      by_contra allocated
      rw [owners owner fine (by simpa using allocated)] at idle
      cases idle
    rcases within.of_cons with ⟨rfl, rfl⟩ | inside | later
    · rw [Descriptor.isAllocated, base] at unallocated
      cases unallocated
    · rw [Memory.contents, Descriptor.slots_of_unallocated unallocated] at inside
      exact inside.not_nil.elim
    · exact complete p e b later base
  | @own d rest block size inside f fine backs readable _ _ insideIh restIh =>
    intro items same held
    obtain ⟨⟨q, owner⟩, items, rfl, rfl, rfl⟩ := List.map_eq_cons_iff.mp same
    have holds : s.Holds q owner := held _ List.mem_cons_self
    have heldInside : ∀ x ∈ s.machine.memory.contents owner, s.Holds x.1 x.2 := by
      intro x mem
      obtain ⟨a, slot, rfl⟩ := List.mem_map.mp mem
      obtain ⟨e, there⟩ := Option.isSome_iff_exists.mp (readable a slot)
      rw [Memory.slotValue_of_descriptor? there]
      exact .component holds slot there
    have values : (s.machine.memory.contents owner).map (·.2) =
        owner.slots.map s.machine.memory.slotValue := by
      rw [Memory.contents, List.map_map]
      rfl
    obtain ⟨first, numbers, complete, sound⟩ := insideIh _ values heldInside
    obtain ⟨later, numbers', complete', sound'⟩ :=
      restIh items rfl fun x mem => held x (List.mem_cons_of_mem _ mem)
    -- The blocks inside, the block itself and the other ones.
    refine ⟨first ++ (block, q) :: later, ?_, fun p e b within base => ?_, fun x mem => ?_⟩
    · rw [List.map_append, List.map_cons, numbers, numbers', Forest.numbers_cons]
    · rw [List.mem_append, List.mem_cons]
      rcases within.of_cons with ⟨rfl, rfl⟩ | inside | others
      · have same := backs.base.symm.trans base
        cases same
        exact .inr (.inl rfl)
      · exact .inl (complete p e b inside base)
      · exact .inr (.inr (complete' p e b others base))
    · rcases List.mem_append.mp mem with mem | mem
      · exact sound x mem
      · rcases List.mem_cons.mp mem with rfl | mem
        · exact ⟨owner, holds, backs.base⟩
        · exact sound' x mem

/-- Every block that the local descriptors own belongs to one place that the session holds. -/
theorem exists_owners {f : Forest} (owns : s.machine.memory.Owns P s.locals f)
    (owners : ∀ d, P d → d.isAllocated = true → d.isOwner = true) :
    ∃ placed : List (Nat × Place), placed.map (·.1) = f.numbers ∧
      (∀ p d b, s.Holds p d → d.base = some ⟨.heap b, 0⟩ → (b, p) ∈ placed) ∧
      ∀ x ∈ placed, ∃ d, s.Holds x.2 d ∧ d.base = some ⟨.heap x.1, 0⟩ := by
  obtain ⟨placed, numbers, complete, sound⟩ :=
    exists_owners_of_items owns owners s.items s.map_snd_items
    fun ⟨p, d⟩ mem => by
      obtain ⟨index, rfl, there⟩ := mem_items.mp mem
      exact .localVariable there
  exact ⟨placed, numbers, fun p d b holds base => complete p d b holds.within base, sound⟩

end Session

end DerivedTypes
