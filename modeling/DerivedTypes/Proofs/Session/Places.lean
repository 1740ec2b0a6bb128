import DerivedTypes.Proofs.Ownership.Holdings
import DerivedTypes.Session

namespace DerivedTypes

/-!
# Descriptors that a session holds

A session holds its local descriptors, and with a descriptor all those in the storage that it
describes (`Session.Holds`).

* `Memory.KeepsBlocks`: nothing in some blocks changes but the descriptor at a place;
* `Session.Holds.exists_update`: what a held descriptor owns, and that another one may take its
  place.
-/

/-- A session holds descriptors: the local ones, and those in elements of storage that a held one
    describes. -/
inductive Session.Holds (s : Session) : Place → Descriptor → Prop
  | localVariable {index : Nat} {d : Descriptor} (there : s.locals[index]? = some d) :
      Holds s (.localVariable index) d
  | component {place : Place} {owner d : Descriptor} {a : Address} (holds : Holds s place owner)
      (slot : a ∈ owner.slots) (there : s.machine.memory.descriptor? a = some d) :
      Holds s (.stored a) d

/-- The descriptor at a place, if there is one. -/
def Session.at? (s : Session) : Place → Option Descriptor
  | .localVariable index => s.locals[index]?
  | .stored a => s.machine.memory.descriptor? a

/-- What a session holds at a place is found there. -/
theorem Session.Holds.at?_eq {s : Session} {p : Place} {d : Descriptor} (h : s.Holds p d) :
    s.at? p = some d := by
  cases h with
  | localVariable there => exact there
  | component _ _ there => exact there

/-! ### Changes at one place -/

/-- The byte at an address belongs to the descriptor at a place. -/
def Place.Covers : Place → Address → Prop
  | localVariable _, _ => False
  | stored a, b => b.InSpan a descriptorBytes

namespace Memory

/-- In some blocks nothing changes but the descriptor at a place, and pointers to live blocks still
    find them. -/
structure KeepsBlocks (m m' : Memory) (p : Place) (blocks : List (Nat × Nat)) : Prop where
  pointers : m.KeepsPointers m'
  size : ∀ b ∈ blocks, (m'.region? (.heap b.1)).map (·.size) = (m.region? (.heap b.1)).map (·.size)
  byte? : ∀ b ∈ blocks, ∀ x : Address, x.region = .heap b.1 → ¬ p.Covers x → m'.byte? x = m.byte? x

namespace KeepsBlocks

variable {m m' : Memory} {p q : Place} {a t : Address} {b : Nat × Nat}
  {blocks blocks' : List (Nat × Nat)}

/-- A descriptor that is stored later changes nothing but its place. -/
theorem writeDescriptor (h : m.KeepsBlocks m' (.stored a) blocks) (d : Descriptor)
    (room : m'.spans a descriptorBytes) :
    m.KeepsBlocks (m'.writeDescriptor a d) (.stored a) blocks where
  pointers := h.pointers.trans_of_placement (placement_writeFields ..) (tables_writeFields ..)
  size := fun b mem => (size_region?_writeFields ..).trans (h.size b mem)
  byte? := fun b mem x region outside =>
    (byte?_writeFields_of_not_inSpan room (fun _ field => Descriptor.field_le field) outside).trans
      (h.byte? b mem x region outside)

/-- A block without the place stays as it is. -/
theorem region? (h : m.KeepsBlocks m' p blocks) (mem : b ∈ blocks)
    (elsewhere : ∀ x : Address, x.region = .heap b.1 → ¬ p.Covers x) :
    m'.region? (.heap b.1) = m.region? (.heap b.1) :=
  region?_ext (h.size b mem) fun _ => h.byte? b mem _ rfl (elsewhere _ rfl)

/-- Fewer blocks stay as they are. -/
theorem mono (h : m.KeepsBlocks m' p blocks) (sub : ∀ b ∈ blocks', b ∈ blocks) :
    m.KeepsBlocks m' p blocks' where
  pointers := h.pointers
  size := fun b mem => h.size b (sub b mem)
  byte? := fun b mem => h.byte? b (sub b mem)

/-- In blocks without the place, nothing changes at another place either. -/
theorem of_elsewhere (h : m.KeepsBlocks m' p blocks) (sub : ∀ b ∈ blocks', b ∈ blocks)
    (elsewhere : ∀ b ∈ blocks', ∀ x : Address, x.region = .heap b.1 → ¬ p.Covers x) :
    m.KeepsBlocks m' q blocks' where
  pointers := h.pointers
  size := fun b mem => h.size b (sub b mem)
  byte? := fun b mem x region _ => h.byte? b (sub b mem) x region (elsewhere b mem x region)

/-- A descriptor apart from the place is read as before, if its storage is live. -/
theorem descriptor? (h : m.KeepsBlocks m' p blocks) (mem : b ∈ blocks)
    (region : t.region = .heap b.1) {d : Descriptor} (there : m.descriptor? t = some d)
    (live : m.PointsAtLive d) (apart : ∀ x : Address, x.InSpan t descriptorBytes → ¬ p.Covers x) :
    m'.descriptor? t = some d :=
  h.pointers.descriptor? there live (spans_of_size (by rw [region]; exact h.size b mem))
    fun x inside =>
      h.byte? b mem x (inside.1.trans region) (apart x inside)

end KeepsBlocks

/-- When one descriptor in the storage of an owner changes, the others there stay as they are. -/
theorem KeepsBlocks.slots {m m' : Memory} {owner d' : Descriptor} {block size : Nat} {a : Address}
    {before after : List Address} {blocks : List (Nat × Nat)}
    (keeps : m.KeepsBlocks m' (.stored a) blocks) (here : (block, size) ∈ blocks)
    (backs : m.Backs owner block size) (readable : ∀ t ∈ owner.slots, (m.descriptor? t).isSome)
    (live : ∀ t ∈ owner.slots, m.PointsAtLive (m.slotValue t))
    (order : owner.slots = before ++ a :: after) (there : m'.descriptor? a = some d') :
    owner.slots.map m'.slotValue = before.map m.slotValue ++ d' :: after.map m.slotValue ∧
      ∀ t ∈ owner.slots, (m'.descriptor? t).isSome := by
  -- The descriptors in the storage have no byte in common, so only one of them changes.
  have apart : ∀ t ∈ before ++ after, Address.Apart a descriptorBytes t descriptorBytes := by
    have pairwise := Descriptor.pairwise_slots backs.typed
    rw [order] at pairwise
    exact (List.pairwise_cons.mp (List.perm_middle.pairwise pairwise fun apart => apart.symm)).1
  have slot {t : Address} (mem : t ∈ before ++ after) : t ∈ owner.slots := by
    rw [order, List.mem_append, List.mem_cons]
    exact (List.mem_append.mp mem).imp_right .inr
  have read : ∀ t ∈ before ++ after, m'.descriptor? t = m.descriptor? t := by
    intro t mem
    have inBlock := (backs.slot_inside (slot mem)).1
    obtain ⟨d, stored⟩ := Option.isSome_iff_exists.mp (readable t (slot mem))
    have live := live t (slot mem)
    rw [slotValue_of_descriptor? stored] at live
    rw [stored, keeps.descriptor? here inBlock stored live fun x inside covered =>
      apart t mem x covered inside]
  have same : ∀ t ∈ before ++ after, m'.slotValue t = m.slotValue t := by
    intro t mem
    rw [slotValue, slotValue, read t mem]
  constructor
  · rw [order, List.map_append, List.map_cons, slotValue_of_descriptor? there,
      List.map_congr_left fun t mem => same t (List.mem_append_left _ mem),
      List.map_congr_left fun t mem => same t (List.mem_append_right _ mem)]
  · intro t mem
    by_cases changed : t = a
    · rw [changed, there]
      rfl
    · rw [order, List.mem_append, List.mem_cons] at mem
      have other : t ∈ before ++ after :=
        List.mem_append.mpr (mem.imp_right fun mem => mem.resolve_left changed)
      rw [read t other]
      exact readable t (slot other)

/-- A descriptor in the storage of an owner owns a part of what the owner owns. While the other
    blocks stay as they are, another descriptor with a tree of its own may take its place. -/
theorem Owns.exists_slot {m : Memory} {P : Descriptor → Prop} {owner d : Descriptor} {f : Forest}
    {a : Address} (h : m.Owns P [owner] f)
    (owners : ∀ d, P d → d.isAllocated = true → d.isOwner = true) (distinct : f.Distinct)
    (isOwner : owner.isOwner = true) (slot : a ∈ owner.slots) (there : m.descriptor? a = some d) :
    ∃ tree others, m.Owns P [d] tree ∧ f.blocks.Perm (tree.blocks ++ others) ∧
      (∃ b ∈ others, a.region = .heap b.1 ∧ m.spans a descriptorBytes) ∧
      ∀ (m' : Memory) (d' : Descriptor) (tree' : Forest), m.KeepsBlocks m' (.stored a) others →
        m'.descriptor? a = some d' → m'.Owns P [d'] tree' →
        ∃ f', m'.Owns P [owner] f' ∧ f'.blocks.Perm (tree'.blocks ++ others) := by
  cases h with
  | idle _ idle => simp [isOwner] at idle
  | @own _ _ block size inside _ fine backs readable contents rest =>
    cases rest with
    | nil =>
      -- The descriptor is one of those that own the blocks inside.
      obtain ⟨before, after, order⟩ := List.append_of_mem slot
      have live : ∀ t ∈ owner.slots, m.PointsAtLive (m.slotValue t) := fun t mem =>
        contents.pointsAtLive owners (List.mem_map_of_mem mem)
      rw [order, List.map_append, List.map_cons, slotValue_of_descriptor? there] at contents
      obtain ⟨tree, inner, owns, split, replace⟩ := contents.exists_middle owners
      have around {g t : Forest} (split : g.blocks.Perm (t.blocks ++ inner)) :
          (Forest.cons block size g .nil).blocks.Perm (t.blocks ++ (inner ++ [(block, size)])) := by
        rw [Forest.blocks, ← List.append_assoc]
        exact split.append_right _
      have here : (block, size) ∈ inner ++ [(block, size)] :=
        List.mem_append_right _ List.mem_cons_self
      have region := (backs.slot_inside slot).1
      refine ⟨tree, inner ++ [(block, size)], owns, around split,
        ⟨_, here, region, backs.spans_slot slot⟩, ?_⟩
      intro m' d' tree' keeps there' owns'
      -- The blocks inside this one do not have the descriptor in them.
      have elsewhere : ∀ b ∈ inner, ∀ x : Address, x.region = .heap b.1 →
          ¬ Place.Covers (.stored a) x := by
        intro b mem x inOther covered
        have same : Region.heap b.1 = .heap block := (inOther.symm.trans covered.1).trans region
        have inside : b.1 ∈ inside.numbers :=
          List.mem_map_of_mem (split.mem_iff.mpr (List.mem_append_right _ mem))
        exact distinct.not_mem_inside (Region.heap.inj same ▸ inside)
      obtain ⟨g, ownsInside, split'⟩ := replace m' d' tree' keeps.pointers
        (fun b mem => keeps.region? (List.mem_append_left _ mem) (elsewhere b mem)) owns'
      obtain ⟨values, readable'⟩ := keeps.slots here backs readable live order there'
      rw [← values] at ownsInside
      exact ⟨_, .own fine (backs.congr (keeps.size _ here)) readable' ownsInside .nil,
        around split'⟩

end Memory

/-! ### Held descriptors -/

namespace Session

/-- A session comes out of another when the descriptor at a place becomes `d'`: other local
    descriptors stay as they are, and so does all else in some blocks. -/
structure Updates (s s' : Session) (p : Place) (d' : Descriptor) (blocks : List (Nat × Nat)) :
    Prop where
  memory : s.machine.memory.KeepsBlocks s'.machine.memory p blocks
  locals : ∀ index, .localVariable index ≠ p → s'.locals[index]? = s.locals[index]?
  at?_eq : s'.at? p = some d'

/-- The local descriptors, with one of them changed. -/
theorem Updates.locals_eq {s s' : Session} {index : Nat} {d d' : Descriptor}
    {blocks : List (Nat × Nat)} (h : s.Updates s' (.localVariable index) d' blocks)
    {before after : List Descriptor} (split : s.locals = before ++ d :: after)
    (length : before.length = index) :
    s'.locals = before ++ d' :: after := by
  subst length
  apply List.ext_getElem?
  intro i
  by_cases here : i = before.length
  · subst here
    rw [List.getElem?_append_right (Nat.le_refl _), Nat.sub_self, List.getElem?_cons_zero]
    exact h.at?_eq
  · -- The other ones are as far from the start as they were.
    rw [h.locals i (by simpa using here), split]
    by_cases first : i < before.length
    · rw [List.getElem?_append_left first, List.getElem?_append_left first]
    · obtain ⟨k, later⟩ : ∃ k, i - before.length = k + 1 := ⟨i - before.length - 1, by omega⟩
      rw [List.getElem?_append_right (by omega), List.getElem?_append_right (by omega), later,
        List.getElem?_cons_succ, List.getElem?_cons_succ]

/-- A place lies in one of several blocks, if it lies in memory at all. -/
def PlacedIn (s : Session) (p : Place) (blocks : List (Nat × Nat)) : Prop :=
  ∀ a, p = .stored a →
    (∃ b ∈ blocks, a.region = .heap b.1) ∧ s.machine.memory.spans a descriptorBytes

/-- When a descriptor in memory changes, one in other blocks is still there, if its storage is
    live. -/
theorem Updates.of_elsewhere {s s' : Session} {a : Address} {q : Place} {d' owner : Descriptor}
    {blocks others : List (Nat × Nat)} (h : s.Updates s' (.stored a) d' blocks)
    (live : s.machine.memory.PointsAtLive owner)
    (sub : ∀ b ∈ others, b ∈ blocks)
    (elsewhere : ∀ b ∈ others, ∀ x : Address, x.region = .heap b.1 → ¬ Place.Covers (.stored a) x)
    (placed : s.PlacedIn q others) (there : s.at? q = some owner) :
    s.Updates s' q owner others := by
  refine ⟨h.memory.of_elsewhere sub elsewhere, fun index _ => h.locals index nofun, ?_⟩
  cases q with
  | localVariable index =>
    rw [← there]
    exact h.locals index nofun
  | stored t =>
    obtain ⟨⟨b, mem, region⟩, _⟩ := placed t rfl
    exact h.memory.descriptor? (sub b mem) region there live fun x inside =>
      elsewhere b mem x (inside.1.trans region)

namespace Holds

variable {s : Session} {P : Descriptor → Prop} {p : Place} {d : Descriptor} {f : Forest}

/-- A held descriptor owns a tree of what the local descriptors own, and its place lies in one of
    the other blocks. While these stay as they are, another descriptor with a tree of its own may
    take its place, and then the session holds that one. -/
theorem exists_update (h : s.Holds p d) (owns : s.machine.memory.Owns P s.locals f)
    (distinct : f.Distinct) (owners : ∀ d, P d → d.isAllocated = true → d.isOwner = true) :
    ∃ tree others, s.machine.memory.Owns P [d] tree ∧ f.blocks.Perm (tree.blocks ++ others) ∧
      s.PlacedIn p others ∧
      ∀ (s' : Session) (d' : Descriptor) (tree' : Forest), s.Updates s' p d' others →
        s'.machine.memory.Owns P [d'] tree' → s'.Holds p d' ∧
        ∃ f', s'.machine.memory.Owns P s'.locals f' ∧ f'.blocks.Perm (tree'.blocks ++ others) := by
  induction h with
  | @localVariable index d there =>
    obtain ⟨lt, rfl⟩ := List.getElem?_eq_some_iff.mp there
    obtain ⟨before, after, split, length⟩ :
        ∃ before after, s.locals = before ++ s.locals[index] :: after ∧ before.length = index :=
      ⟨s.locals.take index, s.locals.drop (index + 1), by simp, by simp; omega⟩
    rw [split] at owns
    obtain ⟨tree, others, owns, blocks, replace⟩ := owns.exists_middle owners
    refine ⟨tree, others, owns, blocks, nofun, fun s' d' tree' updates owns' => ?_⟩
    refine ⟨.localVariable updates.at?_eq, ?_⟩
    rw [updates.locals_eq split length]
    exact replace _ d' tree' updates.memory.pointers
      (fun b mem => updates.memory.region? mem fun _ _ covered => covered) owns'
  | @component q owner d a holds slot there ih =>
    -- The owner may be exchanged, and with it one of the descriptors in its storage.
    obtain ⟨outer, others, ownsOuter, blocksOuter, placed, replaceOuter⟩ := ih
    have numbers : ((outer.blocks ++ others).map (·.1)).Nodup :=
      (blocksOuter.map _).nodup_iff.mp distinct
    rw [List.map_append] at numbers
    obtain ⟨distinctOuter, _, apart⟩ := List.nodup_append.mp numbers
    have isOwner : owner.isOwner = true := by
      obtain ⟨data, _, base, _⟩ := Descriptor.mem_slots.mp slot
      exact owners owner (ownsOuter.fine owner List.mem_cons_self)
        (by rw [Descriptor.isAllocated, base]; rfl)
    obtain ⟨tree, inner, owns, blocks, ⟨b, mem, region, room⟩, replace⟩ :=
      ownsOuter.exists_slot owners distinctOuter isOwner slot there
    refine ⟨tree, inner ++ others, owns, ?_, ?_, fun s' d' tree' updates owns' => ?_⟩
    · rw [← List.append_assoc]
      exact blocksOuter.trans (blocks.append_right _)
    · intro t same
      cases same
      exact ⟨⟨b, List.mem_append_left _ mem, region⟩, room⟩
    · -- The other blocks do not have the descriptor.
      have elsewhere : ∀ c ∈ others, ∀ x : Address, x.region = .heap c.1 →
          ¬ Place.Covers (.stored a) x := by
        intro c inOthers x inBlock covered
        have same : Region.heap c.1 = .heap b.1 := (inBlock.symm.trans covered.1).trans region
        have inOuter : b ∈ outer.blocks := blocks.mem_iff.mpr (List.mem_append_right _ mem)
        exact apart b.1 (List.mem_map_of_mem inOuter) c.1 (List.mem_map_of_mem inOthers)
          (Region.heap.inj same).symm
      obtain ⟨outer', ownsOuter', blocks'⟩ := replace _ d' tree'
        (updates.memory.mono fun b mem => List.mem_append_left _ mem) updates.at?_eq owns'
      have live := ownsOuter.pointsAtLive owners List.mem_cons_self
      have kept :=
        updates.of_elsewhere live (fun c mem => List.mem_append_right _ mem) elsewhere placed
        holds.at?_eq
      obtain ⟨holds', f', ownsAll, split⟩ := replaceOuter s' owner outer' kept ownsOuter'
      refine ⟨.component holds' slot updates.at?_eq, f', ownsAll, split.trans ?_⟩
      rw [← List.append_assoc]
      exact blocks'.append_right _

end Holds

end Session

end DerivedTypes
