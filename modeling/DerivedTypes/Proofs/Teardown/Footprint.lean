import DerivedTypes.Proofs.Ownership.Deallocation

namespace DerivedTypes

/-!
# What a teardown writes

The teardown of an instance frees blocks, and in memory that stays live it writes nothing but null
into the bases of the descriptors that owned these blocks. So no descriptor of the instance owns
storage any more, and another teardown finds nothing to release.

* `DerivedType.exists_destroyScalar`: how the teardown of an instance ends;
* `Memory.TornDown.descriptor?_eq`: what becomes of a descriptor;
* `DerivedType.destroyScalar_clears_only_bases`: what changes in memory, and what does not;
* `DerivedType.destroyScalar_again`: a second teardown releases nothing.
-/

open TeardownStep

/-! ### Descriptors after a teardown -/

namespace Memory.TornDown

variable {m m' : Memory} {blocks : List Nat} {slots : List Address} {s : Address}

/-- Of the bytes of a descriptor, none but the base of an owner changes. -/
theorem byte?_slot (h : m.TornDown m' blocks (m.owners slots))
    (apart : slots.Pairwise fun s t => Address.Apart s descriptorBytes t descriptorBytes)
    (mem : s ∈ slots) (outside : ∀ b ∈ blocks, s.region ≠ .heap b) {i : Nat}
    (lt : i < descriptorBytes) (other : m.ownsStorage s = false ∨ 8 ≤ i) :
    m'.byte? (s + i) = m.byte? (s + i) := by
  refine h.kept (s + i) outside fun t owner inside => ?_
  obtain ⟨there, owns⟩ := List.mem_filter.mp owner
  by_cases same : s = t
  · subst same
    have low := inside.2.2
    simp only [Address.offset_add] at low
    rcases other with idle | ge
    · simp [idle] at owns
    · omega
  · exact Address.apart_of_pairwise apart mem there same (s + i) (Address.inSpan_add lt)
      (inside.of_le (by decide))

/-- The base of an owner is null. -/
theorem word?_owner (h : m.TornDown m' blocks (m.owners slots)) (mem : s ∈ slots)
    (owns : m.ownsStorage s = true) (room : m.spans s descriptorBytes)
    (outside : ∀ b ∈ blocks, s.region ≠ .heap b) : m'.word? s = some 0 := by
  have room' : m'.spans s 8 := by
    rw [h.spans outside]
    exact spans_of_le room (by decide)
  have bytes := read?_of_zeros room' (h.cleared s (List.mem_filter.mpr ⟨mem, owns⟩) outside)
  rw [word?, bytes]
  rfl

/-- A descriptor that owned storage has lost its base, and any other one is as it was. -/
theorem descriptor?_eq (h : m.TornDown m' blocks (m.owners slots))
    (apart : slots.Pairwise fun s t => Address.Apart s descriptorBytes t descriptorBytes)
    (mem : s ∈ slots) (room : m.spans s descriptorBytes)
    (outside : ∀ b ∈ blocks, s.region ≠ .heap b) {d : Descriptor}
    (there : m.descriptor? s = some d) :
    m'.descriptor? s = some (if d.isOwner then { d with base := none } else d) := by
  have owns := ownsStorage_of_descriptor? there
  cases owner : d.isOwner with
  | false =>
    have agrees : m.Agrees m' s descriptorBytes := by
      refine ⟨h.placement, h.tables, h.spans outside _, fun b inside => ?_⟩
      obtain ⟨i, lt, rfl⟩ := inside.exists_add
      exact h.byte?_slot apart mem outside lt (.inl (owns.trans owner))
    rw [agrees.descriptor? room, there]
    simp
  | true =>
    have fields := descriptor?_eq_some_iff.mp there
    have null : (m'.word? s).map m'.placement.address? = some none := by
      rw [h.word?_owner mem (owns.trans owner) room outside]
      rfl
    have same {i : Nat} (ge : 8 ≤ i) (lt : i < descriptorBytes) :
        m'.byte? (s + i) = m.byte? (s + i) :=
      h.byte?_slot apart mem outside lt (.inr ge)
    have types : m'.type? = m.type? := by
      funext word
      rw [type?, type?, table?, table?, h.placement, h.tables]
    have cleared :=
      fields.congr room ((h.spans outside _).trans room) (fun i ge lt _ => same ge lt) null
      ((same (by decide) (by decide)).trans fields.flags) (types ▸ fields.type)
    rw [descriptor?_eq_some_iff.mpr cleared]
    cases d
    rfl

end Memory.TornDown

/-! ### Teardowns of instances -/

namespace DerivedType

variable {env : Environment} {P : Descriptor → Prop} {ty : DerivedType} {a : Address} {f : Forest}
  {M : Machine}

/-- The teardown of an instance ends well, with the events that memory tells, and tears down what
    the descriptors in the instance own. -/
theorem exists_destroyScalar (inert : env.Inert) (sound : ty.Throughout TeardownSound)
    (ready : M.memory.Ready P (ty.slots a) f) (finalize : Bool) :
    ∃ m', ty.destroyScalar env a finalize M =
        .ok () ((M.recordAll ((ty.scalarSteps env.context a finalize).flatMap
          (events env M.memory M.memory.byteCount))).withMemory m') ∧
      M.memory.TornDown m' f.numbers (M.memory.owners (ty.slots a)) := by
  have order := released_scalarSteps env.context sound a finalize
  obtain ⟨g, prepared, similar⟩ := ready.exists_prepared (Q := fun _ => True) order
    (resolved_scalarSteps env.context sound a finalize) fun _ _ => trivial
  obtain ⟨m', ran, torn⟩ := prepared.exists_forM inert
  have members {s : Address} := (order.filter M.memory.ownsStorage).mem_iff (a := s)
  refine ⟨m', ?_, torn.congr (fun b => similar.mem_iff.symm) (fun s mem => ?_) fun s mem => .inl ?_⟩
  · rw [destroyScalar_eq]
    exact ran
  · exact members.mpr mem
  · exact members.mp mem

/-- The teardown of an instance frees the blocks that descriptors in it own. In memory that stays
    live, no byte changes but in the bases of these descriptors, which become null: each of these
    descriptors keeps its other fields, and all other descriptors in the instance stay as they are.
    No region changes its size, and regions without a part of the instance do not change at all. -/
theorem destroyScalar_clears_only_bases (inert : env.Inert) (sound : ty.Throughout TeardownSound)
    (ready : M.memory.Ready P (ty.slots a) f) (finalize : Bool) :
    ∃ M', ty.destroyScalar env a finalize M = .ok () M' ∧
      (∀ b ∈ f.numbers, M'.memory.region? (.heap b) = none) ∧
      (∀ x : Address, (∀ b ∈ f.numbers, x.region ≠ .heap b) → M'.memory.byte? x ≠ M.memory.byte? x →
        ∃ s ∈ ty.slots a, ∃ d, M.memory.descriptor? s = some d ∧ d.isOwner = true ∧ x.InSpan s 8) ∧
      (∀ s ∈ ty.slots a, ∃ d, M.memory.descriptor? s = some d ∧
        M'.memory.descriptor? s = some (if d.isOwner then { d with base := none } else d)) ∧
      (∀ region, (∀ b ∈ f.numbers, region ≠ .heap b) →
        (M'.memory.region? region).map (·.size) = (M.memory.region? region).map (·.size)) ∧
      ∀ region, (∀ b ∈ f.numbers, region ≠ .heap b) → region ≠ a.region →
        M'.memory.region? region = M.memory.region? region := by
  obtain ⟨m', ended, torn⟩ := exists_destroyScalar inert sound ready finalize
  refine ⟨_, ended, torn.gone, fun x outside changed => ?_, fun s mem => ?_, torn.size,
    fun region outside ne => ?_⟩
  · by_contra none
    refine changed (torn.kept x outside fun s owner inside => none ?_)
    obtain ⟨mem, owns⟩ := List.mem_filter.mp owner
    obtain ⟨d, there⟩ := Option.isSome_iff_exists.mp (ready.readable s mem)
    exact ⟨s, mem, d, there, (Memory.ownsStorage_of_descriptor? there).symm.trans owns, inside⟩
  · obtain ⟨d, there⟩ := Option.isSome_iff_exists.mp (ready.readable s mem)
    exact ⟨d, there, torn.descriptor?_eq ready.apart mem (ready.spans s mem)
      (ready.outside s mem) there⟩
  · refine torn.region? outside fun s owner same => ?_
    obtain ⟨i, rfl, _⟩ :=
      exists_offset_of_mem_slots (sound.imp fun _ h => h.laidOut) (List.mem_filter.mp owner).1
    exact ne same.symm

/-- The teardown of the first node of a list frees the second one, and the first one keeps all but
    the base of its descriptor. -/
theorem destroyScalar_node_clears_only_bases : ∃ M',
    LinkedList.node.destroyScalar LinkedList.environment ⟨.heap 0, 0⟩ true
      ⟨LinkedList.memory, #[]⟩ = .ok () M' ∧
    M'.memory.region? (.heap 1) = none ∧
    M'.memory.descriptor? ⟨.heap 0, 0⟩ = some { LinkedList.list 1 with base := none } := by
  obtain ⟨M', ended, gone, _, descriptors, _⟩ :=
    destroyScalar_clears_only_bases (M := ⟨LinkedList.memory, #[]⟩)
    LinkedList.inert LinkedList.throughout_node LinkedList.ready true
  obtain ⟨d, before, after⟩ := descriptors ⟨.heap 0, 0⟩ LinkedList.first_mem_slots
  obtain rfl := Option.some.inj (LinkedList.first_memory.symm.trans before)
  exact ⟨M', ended, gone 1 (by decide), after⟩

/-- After the teardown of an instance, no allocatable descriptor in it has storage: not one of its
    own, of the types that it extends, or of an element at any depth. A second teardown that does
    not finalize ends well and leaves nothing but traces of its way: it changes no memory, and
    releases and frees nothing. -/
theorem destroyScalar_again (inert : env.Inert) (sound : ty.Throughout TeardownSound)
    (ready : M.memory.Ready P (ty.slots a) f) (finalize : Bool) :
    ∃ M', ty.destroyScalar env a finalize M = .ok () M' ∧
      (∀ s ∈ ty.slots a, ∃ d, M'.memory.descriptor? s = some d ∧
        (d.isAllocatable && d.isAllocated) = false) ∧
      ∃ (M'' : Machine) (way : List Event), ty.destroyScalar env a false M' = .ok () M'' ∧
        M''.memory = M'.memory ∧
        M''.events = M'.events ++ way.toArray ∧ ∀ e ∈ way, e.isEntering := by
  obtain ⟨m', ended, torn⟩ := exists_destroyScalar inert sound ready finalize
  have idle : ∀ s ∈ ty.slots a, ∃ d, m'.descriptor? s = some d ∧ d.isOwner = false := by
    intro s mem
    obtain ⟨d, there⟩ := Option.isSome_iff_exists.mp (ready.readable s mem)
    refine ⟨_, torn.descriptor?_eq ready.apart mem (ready.spans s mem) (ready.outside s mem) there,
      ?_⟩
    cases owner : d.isOwner with
    | true => simp [Descriptor.isOwner, Descriptor.isAllocated]
    | false => simpa using owner
  have vacant : ∀ s ∈ ty.slots a, m'.Vacant s := by
    intro s mem
    obtain ⟨d, there, none⟩ := idle s mem
    refine .of_spans ?_ ((Memory.ownsStorage_of_descriptor? there).trans none)
    rw [torn.spans (ready.outside s mem)]
    exact ready.spans s mem
  have again (M' : Machine) (torn : M'.memory = m') :
      ∃ way, ty.destroyScalar env a false M' = .ok () (M'.recordAll way) ∧
      ∀ e ∈ way, e.isEntering :=
    exists_destroyScalar_false sound (torn ▸ vacant)
  refine ⟨_, ended, idle, ?_⟩
  obtain ⟨way, ran, entering⟩ :=
    again ((M.recordAll ((ty.scalarSteps env.context a finalize).flatMap
    (events env M.memory M.memory.byteCount))).withMemory m') rfl
  exact ⟨_, way, ran, rfl, rfl, entering⟩

/-- Another teardown of the first node of a list leaves memory as it is. -/
theorem destroyScalar_node_again : ∃ (M' M'' : Machine) (way : List Event),
    LinkedList.node.destroyScalar LinkedList.environment ⟨.heap 0, 0⟩ true
      ⟨LinkedList.memory, #[]⟩ = .ok () M' ∧
    LinkedList.node.destroyScalar LinkedList.environment ⟨.heap 0, 0⟩ false M' = .ok () M'' ∧
    M''.memory = M'.memory ∧ M''.events = M'.events ++ way.toArray ∧ ∀ e ∈ way, e.isEntering := by
  obtain ⟨M', ended, _, M'', way, again⟩ :=
    destroyScalar_again (M := ⟨LinkedList.memory, #[]⟩) LinkedList.inert
    LinkedList.throughout_node LinkedList.ready true
  exact ⟨M', M'', way, ended, again⟩

end DerivedType

end DerivedTypes
