import DerivedTypes.Proofs.Ownership.Ready
import DerivedTypes.Proofs.Teardown.Idle

namespace DerivedTypes

/-!
# What a teardown finds

Storage does not change before the teardown comes to it, as long as procedures leave memory alone.
So all that a teardown does is told by memory as it is before.

* `TeardownStep.events`: the events of a step, told by this memory;
* `TeardownStep.Finds`: steps find descriptors that own the blocks of a forest, in the order in
  which a teardown comes to them;
* `TeardownStep.Prepared`: what they find lies apart, so that nothing is changed before it is found;
* `Finds.exists_freed`: their events free every block of the forest once, after all blocks inside
  it;
* `Memory.Ready.exists_prepared`: where descriptors own a forest, the steps that release them are
  prepared.
-/

/-! ### What memory tells -/

namespace Memory

/-- The descriptor at an address, if it owns storage. -/
def owner? (m : Memory) (s : Address) : Option Descriptor :=
  (m.descriptor? s).filter (·.isOwner)

/-- A descriptor that owns storage is an owner. -/
theorem owner?_of_isOwner {m : Memory} {s : Address} {d : Descriptor}
    (there : m.descriptor? s = some d) (owner : d.isOwner = true) : m.owner? s = some d := by
  rw [owner?, there, Option.filter_some, if_pos owner]

/-- A descriptor that owns none is no owner. -/
theorem owner?_of_idle {m : Memory} {s : Address} {d : Descriptor}
    (there : m.descriptor? s = some d) (idle : d.isOwner = false) : m.owner? s = none := by
  rw [owner?, there, Option.filter_some, if_neg (by simp [idle])]

/-- Those of several descriptors that own storage. -/
def owners (m : Memory) (slots : List Address) : List Address :=
  slots.filter m.ownsStorage

/-- A descriptor owns a live block of the size that it says. -/
structure Stores (m : Memory) (d : Descriptor) (block size : Nat) : Prop where
  owner : d.isOwner = true
  base : d.base = some ⟨.heap block, 0⟩
  live : (m.region? (.heap block)).map (·.size) = some size
  size : d.blockSize? = some size

/-- What backs a descriptor is stored by it. -/
theorem Backs.stores {m : Memory} {d : Descriptor} {block size : Nat} (h : m.Backs d block size) :
    m.Stores d block size :=
  ⟨h.isOwner, h.base, h.live, h.size⟩

/-- The descriptors at some addresses, those in the storage that these own, and so on. -/
inductive Reaches (m : Memory) (slots : List Address) : Address → Prop
  | here {s : Address} (mem : s ∈ slots) : Reaches m slots s
  | inside {s t : Address} {d : Descriptor} (outer : Reaches m slots t)
      (there : m.descriptor? t = some d)
      (owner : d.isOwner = true) (mem : s ∈ d.slots) : Reaches m slots s

/-- From more descriptors, more is reached. -/
theorem Reaches.mono {m : Memory} {slots slots' : List Address} {s : Address}
    (h : m.Reaches slots s) (sub : ∀ t ∈ slots, t ∈ slots') : m.Reaches slots' s := by
  induction h with
  | here mem => exact .here (sub _ mem)
  | inside _ there owner mem ih => exact .inside ih there owner mem

/-- What is reached from the storage of a descriptor that is reached. -/
theorem Reaches.of_storage {m : Memory} {slots : List Address} {s t : Address} {d : Descriptor}
    (outer : m.Reaches slots t) (there : m.descriptor? t = some d) (owner : d.isOwner = true)
    (h : m.Reaches d.slots s) : m.Reaches slots s := by
  induction h with
  | here mem => exact .inside outer there owner mem
  | inside _ there' owner' mem ih => exact .inside ih there' owner' mem

/-- Each descriptor that is reached owns a tree, or nothing. -/
theorem Ready.exists_owns_of_reaches {m : Memory} {P : Descriptor → Prop} {slots : List Address}
    {f : Forest} (h : m.Ready P slots f) {s : Address} (reached : m.Reaches slots s)
    {d : Descriptor} (there : m.descriptor? s = some d) : ∃ tree, m.Owns P [d] tree := by
  induction reached generalizing d with
  | here mem =>
    rw [← slotValue_of_descriptor? there]
    exact h.owns.exists_of_mem (List.mem_map_of_mem mem)
  | inside _ there' owner mem ih =>
    obtain ⟨tree, owns⟩ := ih there'
    cases owns with
    | idle _ idle => simp [owner] at idle
    | own _ _ _ contents _ =>
      rw [← slotValue_of_descriptor? there]
      exact contents.exists_of_mem (List.mem_map_of_mem mem)

end Memory

namespace Descriptor

/-- The steps that tear down the storage of a descriptor. -/
def storageSteps (context : ExecutionContext) (d : Descriptor) (finalize : Bool) :
    List TeardownStep :=
  match d.base with
  | none => []
  | some data => d.arraySteps context data finalize

/-- The events of giving back the block of a descriptor. -/
def freeEvents (d : Descriptor) : List Event :=
  match d.base, d.blockSize? with
  | some ⟨.heap block, _⟩, some size => [.log (.freeing size d.typeCode), .freed block size]
  | _, _ => []

end Descriptor

namespace TeardownStep

/-- The events of a step that finds memory as it is. A release may lead to fewer than `depth` others
    inside each other. -/
def events (env : Environment) (m : Memory) : (depth : Nat) → TeardownStep → List Event
  | depth + 1, release ty c s finalize =>
    match m.owner? s with
    | none => []
    | some d =>
      env.traceEvents (.release ty c) ++
      (d.storageSteps env.context finalize).flatMap (events env m depth) ++ d.freeEvents
  | _, step => step.idleEvents env

/-- Steps find descriptors in memory: some own no storage, and the others own the trees of a forest.
    All of them lie at addresses with the property `Q`. -/
inductive Finds (context : ExecutionContext) (m : Memory) (Q : Address → Prop) :
    List TeardownStep → Forest → Prop
  | nil : Finds context m Q [] .nil
  /-- A step that releases nothing. -/
  | silent {step : TeardownStep} {rest : List TeardownStep} {f : Forest} (resolved : step.Resolved)
      (silent : step.slot? = none) (others : Finds context m Q rest f) :
      Finds context m Q (step :: rest) f
  /-- A descriptor that owns no storage is passed over. -/
  | idle {ty : DerivedType} {c : Component} {s : Address} {finalize : Bool} {d : Descriptor}
      {rest : List TeardownStep} {f : Forest} (fine : Q s) (room : m.spans s descriptorBytes)
      (there : m.descriptor? s = some d) (idle : d.isOwner = false)
      (others : Finds context m Q rest f) :
      Finds context m Q (.release ty c s finalize :: rest) f
  /-- A descriptor that owns storage is followed, and all descriptors in its storage lie apart. -/
  | own {ty : DerivedType} {c : Component} {s : Address} {finalize : Bool}
      {d : Descriptor} {block size : Nat}
      {rest : List TeardownStep} {inside f : Forest} (fine : Q s) (room : m.spans s descriptorBytes)
      (there : m.descriptor? s = some d) (stores : m.Stores d block size)
      (apart : (released (d.storageSteps context finalize)).Pairwise fun s t =>
        Address.Apart s descriptorBytes t descriptorBytes)
      (within : ∀ t ∈ released (d.storageSteps context finalize), t.region = .heap block)
      (contents : Finds context m Q (d.storageSteps context finalize) inside)
      (others : Finds context m Q rest f) :
      Finds context m Q (.release ty c s finalize :: rest) (.cons block size inside f)

/-- Steps find the descriptors that own a forest apart from each other and outside of the blocks,
    which are all different. -/
structure Prepared (context : ExecutionContext) (m : Memory) (Q : Address → Prop)
    (steps : List TeardownStep) (f : Forest) : Prop where
  finds : Finds context m Q steps f
  apart : (released steps).Pairwise fun s t => Address.Apart s descriptorBytes t descriptorBytes
  outside : ∀ s ∈ released steps, ∀ b ∈ f.numbers, s.region ≠ .heap b
  distinct : f.Distinct

variable {env : Environment} {context : ExecutionContext} {m : Memory} {Q : Address → Prop}
  {depth : Nat} {step : TeardownStep} {steps rest : List TeardownStep} {f : Forest}

/-- Some steps find one forest and other steps another one. -/
theorem Finds.append {g : Forest} (h : Finds context m Q steps f) (h' : Finds context m Q rest g) :
    Finds context m Q (steps ++ rest) (f.append g) := by
  induction h with
  | nil => exact h'
  | silent resolved silent _ ih => exact .silent resolved silent ih
  | idle fine room there idle _ ih => exact .idle fine room there idle ih
  | own fine room there stores apart within contents _ _ ih =>
    exact .own fine room there stores apart within contents ih

/-- A step that releases nothing leaves the events it leaves anyway. -/
theorem events_of_silent (silent : step.slot? = none) :
    step.events env m depth = step.idleEvents env := by
  cases step with
  | release => cases silent
  | _ => cases depth <;> rfl

/-- The release of a descriptor without storage leaves no events. -/
theorem events_of_not_owner {ty : DerivedType} {c : Component} {s : Address} {finalize : Bool}
    {d : Descriptor} (there : m.descriptor? s = some d) (idle : d.isOwner = false) :
    (release ty c s finalize).events env m depth = [] := by
  cases depth with
  | zero => rfl
  | succ depth => rw [events, Memory.owner?_of_idle there idle]

/-- The release of an owner leaves those of its storage, with one release less to lead to, and then
    those of the free. -/
theorem events_of_owner {ty : DerivedType} {c : Component} {s : Address} {finalize : Bool}
    {d : Descriptor} (there : m.descriptor? s = some d) (owner : d.isOwner = true) :
    (release ty c s finalize).events env m (depth + 1) =
      env.traceEvents (.release ty c) ++
      (d.storageSteps env.context finalize).flatMap (events env m depth) ++ d.freeEvents := by
  rw [events, Memory.owner?_of_isOwner there owner]

end TeardownStep

/-- The storage is torn down as an array at the start of the block. -/
theorem Memory.Stores.storageSteps {m : Memory} {d : Descriptor} {block size : Nat}
    (h : m.Stores d block size) (context : ExecutionContext) (finalize : Bool) :
    d.storageSteps context finalize = d.arraySteps context ⟨.heap block, 0⟩ finalize := by
  rw [Descriptor.storageSteps, h.base]

/-- The block is given back with its size. -/
theorem Memory.Stores.freeEvents {m : Memory} {d : Descriptor} {block size : Nat}
    (h : m.Stores d block size) :
    d.freeEvents = [.log (.freeing size d.typeCode), .freed block size] := by
  rw [Descriptor.freeEvents, h.base, h.size]

/-- On the heap, that is one use. -/
theorem Memory.Stores.filterMap_heapUse?_freeEvents {m : Memory} {d : Descriptor} {block size : Nat}
    (h : m.Stores d block size) : d.freeEvents.filterMap Event.heapUse? = [.freed block size] := by
  rw [h.freeEvents]
  rfl

/-! ### Blocks -/

namespace TeardownStep

variable {env : Environment} {context : ExecutionContext} {depth : Nat}

/-- The blocks of the forest are live, with their sizes, and none is empty. -/
theorem Finds.live {m : Memory} {Q : Address → Prop} {steps : List TeardownStep} {f : Forest}
    (h : Finds context m Q steps f) {block size : Nat} (mem : (block, size) ∈ f.blocks) :
    (m.region? (.heap block)).map (·.size) = some size ∧ 0 < size := by
  induction h with
  | nil => cases mem
  | silent _ _ _ ih => exact ih mem
  | idle _ _ _ _ _ ih => exact ih mem
  | own _ _ _ stores _ _ _ _ insideIh restIh =>
    rcases List.mem_append.mp mem with inside | mem
    · exact insideIh inside
    · rcases List.mem_cons.mp mem with same | rest
      · cases same
        exact ⟨stores.live, (Descriptor.elements_le_blockSize stores.size).2⟩
      · exact restIh rest

/-- A memory that still has the blocks has more bytes than blocks lie inside each other. -/
theorem Prepared.height_le_byteCount_of_size {m m' : Memory} {Q : Address → Prop}
    {steps : List TeardownStep} {f : Forest} (h : Prepared context m Q steps f)
    (same : ∀ b ∈ f.numbers, (m'.region? (.heap b)).map (·.size) =
      (m.region? (.heap b)).map (·.size)) :
    f.height ≤ m'.byteCount := by
  refine f.height_le.trans (Memory.length_le_byteCount h.distinct fun b mem => ?_)
  obtain ⟨⟨block, size⟩, there, rfl⟩ := List.mem_map.mp mem
  obtain ⟨live, positive⟩ := h.finds.live there
  obtain ⟨bytes, region, rfl⟩ := Option.map_eq_some_iff.mp ((same block mem).trans live)
  exact ⟨bytes, region, positive⟩

/-- Prepared steps find no deeper forest than memory has bytes. -/
theorem Prepared.height_le_byteCount {m : Memory} {Q : Address → Prop} {steps : List TeardownStep}
    {f : Forest} (h : Prepared context m Q steps f) : f.height ≤ m.byteCount :=
  h.height_le_byteCount_of_size fun _ _ => rfl

/-- Memory tells the same events at every depth that is enough. -/
theorem Finds.events_eq {m : Memory} {Q : Address → Prop} {steps : List TeardownStep} {f : Forest}
    {depth' : Nat} (h : Finds env.context m Q steps f) (deep : f.height ≤ depth)
    (deep' : f.height ≤ depth') :
    steps.flatMap (events env m depth) = steps.flatMap (events env m depth') := by
  induction h generalizing depth depth' with
  | nil => rfl
  | silent _ silent _ ih =>
    rw [List.flatMap_cons, List.flatMap_cons, events_of_silent silent,
      events_of_silent silent, ih deep deep']
  | idle _ _ there idle _ ih =>
    rw [List.flatMap_cons, List.flatMap_cons, events_of_not_owner there idle,
      events_of_not_owner there idle, ih deep deep']
  | own _ _ there stores _ _ _ _ insideIh restIh =>
    obtain ⟨below, rfl, deepInside, deepRest⟩ := Forest.exists_depth_of_height_le deep
    obtain ⟨below', rfl, deepInside', deepRest'⟩ := Forest.exists_depth_of_height_le deep'
    rw [List.flatMap_cons, List.flatMap_cons, events_of_owner there stores.owner,
      events_of_owner there stores.owner,
      insideIh deepInside deepInside', restIh deepRest deepRest']

/-- Every block of the forest is freed once, after all blocks inside it. -/
theorem Finds.exists_freed {m : Memory} {Q : Address → Prop} {steps : List TeardownStep}
    {f : Forest} (h : Finds env.context m Q steps f) (distinct : f.Distinct)
    (deep : f.height ≤ depth) :
    ∃ freed : List (Nat × Nat),
      (steps.flatMap (events env m depth)).filterMap Event.heapUse? =
        freed.map (fun b => HeapUse.freed b.1 b.2) ∧
      freed.Perm f.blocks ∧ f.Ordered freed := by
  induction h generalizing depth with
  | nil => exact ⟨[], rfl, .refl _, List.Pairwise.nil⟩
  | @silent step rest f _ silent _ ih =>
    obtain ⟨freed, uses, blocks, ordered⟩ := ih distinct deep
    have none := filterMap_heapUse?_idleEvents env [step]
    rw [List.flatMap_singleton] at none
    refine ⟨freed, ?_, blocks, ordered⟩
    rw [List.flatMap_cons, events_of_silent silent, List.filterMap_append, none,
      uses, List.nil_append]
  | idle _ _ there idle _ ih =>
    obtain ⟨freed, uses, blocks, ordered⟩ := ih distinct deep
    refine ⟨freed, ?_, blocks, ordered⟩
    rw [List.flatMap_cons, events_of_not_owner there idle, List.nil_append, uses]
  | @own ty c s finalize d block size rest inside f _ _ there stores _ _ _ _ insideIh restIh =>
    obtain ⟨depth, rfl, deepInside, deepRest⟩ := Forest.exists_depth_of_height_le deep
    have distinct' : ((Forest.cons block size inside .nil).append f).Distinct := distinct
    obtain ⟨distinctTree, distinctRest, _⟩ := distinct'.of_append
    obtain ⟨first, uses, blocks, ordered⟩ := insideIh distinctTree.of_inside deepInside
    obtain ⟨others, uses', blocks', ordered'⟩ := restIh distinctRest deepRest
    have tree : (first ++ [(block, size)]).Perm (Forest.cons block size inside .nil).blocks :=
      blocks.append_right _
    refine ⟨(first ++ [(block, size)]) ++ others, ?_, ?_,
      .append distinct' (.node distinctTree ordered blocks) ordered' tree blocks'⟩
    · rw [List.flatMap_cons, events_of_owner there stores.owner, List.filterMap_append,
        List.filterMap_append, List.filterMap_append, Environment.filterMap_heapUse?_traceEvents,
        uses, stores.filterMap_heapUse?_freeEvents, uses', List.map_append, List.map_append]
      rfl
    · have both := tree.append blocks'
      rw [← Forest.blocks_append] at both
      exact both

/-! ### Where descriptors own a forest -/

/-- Only releases have a descriptor. -/
theorem eq_release_of_slot? {step : TeardownStep} {s : Address} (h : step.slot? = some s) :
    ∃ ty c finalize, step = release ty c s finalize := by
  cases step with
  | release ty c t finalize =>
    cases h
    exact ⟨ty, c, finalize, rfl⟩
  | finalizeScalar | finalizeArray | enterComponents | enterParent | orphan => cases h

/-- Steps find what the descriptors own that they release. The order in which they come to the
    descriptors in a block may be another one. -/
theorem exists_finds {context : ExecutionContext} {m : Memory} {P : Descriptor → Prop}
    {Q : Address → Prop} {steps : List TeardownStep} {f : Forest} (bound : Nat)
    (deep : f.height ≤ bound) (resolved : ∀ step ∈ steps, step.Resolved)
    (ready : m.Ready P (released steps) f) (fine : ∀ s, m.Reaches (released steps) s → Q s) :
    ∃ g, Finds context m Q steps g ∧ f.Similar g := by
  -- The outer induction goes into blocks, and the inner one along the steps.
  induction bound using Nat.strong_induction_on generalizing steps f with
  | _ bound contentsIh =>
    induction steps generalizing f with
    | nil =>
      cases ready.owns with
      | nil => exact ⟨.nil, .nil, .refl _⟩
    | cons step rest ih =>
      have resolvedRest := fun step mem => resolved step (List.mem_cons_of_mem _ mem)
      cases slot : step.slot? with
      | none =>
        have same : released (step :: rest) = released rest := List.filterMap_cons_none slot
        rw [same] at ready fine
        obtain ⟨g, finds, similar⟩ := ih deep resolvedRest ready fine
        exact ⟨g, .silent (resolved step List.mem_cons_self) slot finds, similar⟩
      | some s =>
        have same : released (step :: rest) = s :: released rest := List.filterMap_cons_some slot
        rw [same] at ready fine
        obtain ⟨ty, c, finalize, rfl⟩ := eq_release_of_slot? slot
        have room := ready.spans s List.mem_cons_self
        have fineHere := fine s (.here List.mem_cons_self)
        have fineRest : ∀ t, m.Reaches (released rest) t → Q t := fun t reached =>
          fine t (reached.mono fun u mem => List.mem_cons_of_mem _ mem)
        obtain ⟨d, there, ⟨idle, others⟩ | ⟨block, size, inside, f, rfl, backs,
          contained, others⟩⟩ :=
            ready.cons_cases
        · obtain ⟨g, finds, similar⟩ := ih deep resolvedRest others fineRest
          exact ⟨g, .idle fineHere room there idle finds, similar⟩
        · rw [Forest.height] at deep
          obtain ⟨g, finds, similar⟩ := ih (by omega) resolvedRest others fineRest
          -- The descriptors in the block come in another order.
          have stores := backs.stores
          have order : (released (d.storageSteps context finalize)).Perm d.slots := by
            rw [stores.storageSteps]
            exact d.released_arraySteps context backs.typed backs.base finalize
          have resolvedInside : ∀ step ∈ d.storageSteps context finalize, step.Resolved := by
            rw [stores.storageSteps]
            exact d.resolved_arraySteps context backs.typed _ finalize
          obtain ⟨k, readyInside, similarInside⟩ := contained.perm order.symm
          have deepInside : k.height ≤ bound - 1 := by
            rw [← similarInside.height]
            omega
          obtain ⟨k', findsInside, similarInside'⟩ :=
            contentsIh (bound - 1) (by omega) deepInside resolvedInside readyInside fun t reached =>
              fine t (.of_storage (.here List.mem_cons_self) there stores.owner
                (reached.mono fun u mem => order.mem_iff.mp mem))
          refine ⟨.cons block size k' g,
            .own fineHere room there stores readyInside.apart (fun t mem => ?_)
            findsInside finds, ?_⟩
          · exact (backs.slot_inside (order.mem_iff.mp mem)).1
          · exact (similar.cons block size inside).trans
              ((similarInside.trans similarInside').node block size g)

end TeardownStep

open TeardownStep

/-- Where descriptors own a forest, the steps that release them are prepared. -/
theorem Memory.Ready.exists_prepared {m : Memory} {P : Descriptor → Prop} {slots : List Address}
    {f : Forest} (h : m.Ready P slots f) {context : ExecutionContext} {steps : List TeardownStep}
    (order : (released steps).Perm slots) (resolved : ∀ step ∈ steps, step.Resolved)
    {Q : Address → Prop} (fine : ∀ s, m.Reaches slots s → Q s) :
    ∃ g, Prepared context m Q steps g ∧ f.Similar g := by
  obtain ⟨g, ready, similar⟩ := h.perm order.symm
  obtain ⟨k, finds, similar'⟩ := exists_finds g.height (Nat.le_refl _) resolved ready
    fun s reached => fine s (reached.mono fun t mem => order.mem_iff.mp mem)
  refine ⟨k, ⟨finds, ready.apart, fun s mem b there => ?_, similar'.distinct ready.distinct⟩,
    similar.trans similar'⟩
  exact ready.outside s mem b (similar'.mem_iff.mpr there)

end DerivedTypes
