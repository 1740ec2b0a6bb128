import DerivedTypes.Proofs.Locality.Confined
import DerivedTypes.Proofs.Teardown.Release

namespace DerivedTypes

/-!
# Where a teardown looks

The teardown of an instance looks at the instance and at the blocks that descriptors in it own,
directly or through others. Procedures may change what lies there, but no descriptor, so what is
released is told by memory as it was.

* `DerivedType.confined_scalarSteps`, `Descriptor.confined_arraySteps`: what the steps of a teardown
  call is confined to the instance, or to the array;
* `TeardownStep.acts_release_of_owner`: the release of a block looks at the descriptor and at the
  tree of blocks;
* `TeardownStep.Finds.exists_acts`: steps look at the zone that holds them, and at the blocks that
  they find;
* `TeardownStep.exists_acts_of_ready`: so does a whole teardown, and it does what memory tells;
* `DerivedType.exists_acts_destroyScalar`: so does the teardown of an instance.
-/

open Location TeardownStep

/-! ### Steps that call procedures -/

namespace TeardownStep

/-- The call of a step is confined to a zone. -/
def Confined (env : Environment) (z : Zone) : TeardownStep → Prop
  | finalizeScalar _ _ entry a => env.Confined entry (.scalar a) z
  | finalizeArray _ _ entry view => env.Confined entry (.array view) z
  | _ => True

/-- A zone holds the descriptors that steps release, and their calls are confined to it. -/
structure HeldBy (env : Environment) (z : Zone) (steps : List TeardownStep) : Prop where
  slots : ∀ s ∈ released steps, s ∈ z.slots
  calls : ∀ step ∈ steps, step.Confined env z

/-- The steps that are left are held as well. -/
theorem HeldBy.tail {env : Environment} {z : Zone} {step : TeardownStep} {rest : List TeardownStep}
    (h : HeldBy env z (step :: rest)) : HeldBy env z rest where
  slots := fun s mem => h.slots s <| by
    rw [show released (step :: rest) = released [step] ++ released rest from
      released_append [step] rest]
    exact List.mem_append_right _ mem
  calls := fun step mem => h.calls step (List.mem_cons_of_mem _ mem)

end TeardownStep

namespace DerivedType

variable {env : Environment} {z : Zone}

mutual

/-- What the steps for components call is confined to every zone that the instance is a part of. -/
theorem confined_componentSteps {ty : DerivedType} {a : Address}
    (sound : ty.Throughout TeardownSound) (confined : ty.Throughout (Confined env))
    (inside : (ty.zone a).Within z) (finalize : Bool) :
    ∀ step ∈ ty.componentSteps env.context a finalize, step.Confined env z := by
  rw [componentSteps_eq]
  refine List.forall_mem_cons.mpr ⟨trivial, fun step mem => ?_⟩
  obtain ⟨c, there, mem⟩ := List.mem_flatMap.mp mem
  by_cases parent : c.isParent
  · rw [Component.teardownSteps_of_isParent parent] at mem
    cases mem
  · have own : c.isParent = false := by simpa using parent
    obtain slot | ⟨shape, nested, embedded⟩ | ⟨plain, none⟩ := c.parts_cases
    · rw [Component.teardownSteps_of_isDescriptor own slot] at mem
      obtain rfl := List.mem_singleton.mp mem
      trivial
    · have := sizeOf_embedded there embedded
      rw [Component.teardownSteps_of_embedded own embedded] at mem
      obtain ⟨_, _, named⟩ := Component.embedded?_eq_some_iff.mp embedded
      have whole := zone_embedded_within (sound.imp fun _ sound => sound.laidOut) there embedded a
      exact confined_levelSteps (sound.of_embedded there embedded)
        (confined.of_embedded there embedded)
        (whole.trans inside)
        (fun e element => shape.zone_element_within (typed_of_embedded sound there embedded) named
          element) _ step mem
    · rw [Component.teardownSteps_of_plain plain none] at mem
      cases mem
termination_by 2 * sizeOf ty

/-- What the steps for an array call is confined to every zone that the array is a part of, at the
    level of each type whose instances its elements hold. -/
theorem confined_levelSteps {ty : DerivedType} {d : Descriptor} {data : Address}
    (sound : ty.Throughout TeardownSound) (confined : ty.Throughout (Confined env))
    (inside : (d.zone data).Within z)
    (elements : ∀ e ∈ d.elementAddresses data, (ty.zone e).Within (d.zone data)) (finalize : Bool) :
    ∀ step ∈ ty.levelSteps env.context d data finalize, step.Confined env z := by
  have here : ∀ step ∈ (ty.arrayFinalizer d.rank.toNat finalize).wholeSteps env.context ty d data ++
      (d.elementAddresses data).flatMap fun e =>
        (ty.arrayFinalizer d.rank.toNat finalize).elementSteps env.context ty e ++
          ty.componentSteps env.context e finalize, step.Confined env z := by
    refine List.forall_mem_append.mpr ⟨forall_mem_wholeSteps (fun _ p mem final entry code =>
      (confined.own.arrayFinalizer p mem final entry code d data elements).within inside) _,
      fun step mem => ?_⟩
    obtain ⟨e, element, mem⟩ := List.mem_flatMap.mp mem
    have part := (elements e element).trans inside
    exact List.forall_mem_append.mpr ⟨forall_mem_elementSteps (fun _ p mem final entry code =>
      (confined.own.finalizer p mem final entry code e).within part) _,
      confined_componentSteps sound confined part finalize⟩ step mem
  cases extended : ty.isExtension with
  | false =>
    rw [levelSteps_of_not_extension extended]
    exact here
  | true =>
    obtain ⟨parent, named, inherited⟩ := sound.own.parentFirst.exists_inside extended
    have := sizeOf_parent named
    rw [levelSteps_of_parent extended named]
    refine List.forall_mem_append.mpr ⟨here, List.forall_mem_cons.mpr ⟨trivial, ?_⟩⟩
    -- The elements hold instances of the parent, though they are larger than these.
    exact confined_levelSteps (inherited sound) (inherited confined) inside
      (fun e element => (zone_parent_within sound extended named e).trans (elements e element))
        finalize
termination_by 2 * sizeOf ty + 1

end

/-- What the teardown of an instance calls is confined to every zone that the instance is a part
    of. -/
theorem confined_scalarSteps {ty : DerivedType} {a : Address} (sound : ty.Throughout TeardownSound)
    (confined : ty.Throughout (Confined env)) (inside : (ty.zone a).Within z) (finalize : Bool) :
    ∀ step ∈ ty.scalarSteps env.context a finalize, step.Confined env z := by
  have here :
      ∀ step ∈ ty.finalizeSteps env.context a finalize ++ ty.componentSteps env.context a finalize,
      step.Confined env z :=
    List.forall_mem_append.mpr ⟨forall_mem_finalizeSteps fun _ p mem final entry code =>
      (confined.own.finalizer p mem final entry code a).within inside,
      confined_componentSteps sound confined inside finalize⟩
  cases extended : ty.isExtension with
  | false =>
    rw [scalarSteps_of_not_extension extended]
    exact here
  | true =>
    obtain ⟨parent, named, inherited⟩ := sound.own.parentFirst.exists_inside extended
    have := sizeOf_parent named
    rw [scalarSteps_of_parent extended named]
    refine List.forall_mem_append.mpr ⟨here, List.forall_mem_cons.mpr ⟨trivial, ?_⟩⟩
    exact confined_scalarSteps (inherited sound) (inherited confined)
      ((zone_parent_within sound extended named a).trans inside) finalize
termination_by sizeOf ty

end DerivedType

namespace Descriptor

/-- The procedures for what lies in the storage that a descriptor owns are confined to what they are
    given. -/
def Confined (env : Environment) (d : Descriptor) : Prop :=
  d.isOwner = true → ∀ ty, d.derivedType? = some ty → ty.Throughout (DerivedType.Confined env)

/-- What the teardown of storage calls is confined to the storage. -/
theorem confined_arraySteps {env : Environment} {d : Descriptor} (typed : d.Typed)
    (confined : ∀ ty, d.derivedType? = some ty → ty.Throughout (DerivedType.Confined env))
    (data : Address) (finalize : Bool) :
    ∀ step ∈ d.arraySteps env.context data finalize, step.Confined env (d.zone data) := by
  rw [arraySteps]
  cases named : d.derivedType? with
  | none => simp
  | some ty =>
    exact DerivedType.confined_levelSteps (typed ty named).2 (confined ty named) (.refl _)
      (fun e element => zone_element_within typed named element) _

end Descriptor

/-- What the descriptor at an address owns is described well, and the procedures for it are confined
    to it. -/
def Memory.ConfinedAt (m : Memory) (env : Environment) (s : Address) : Prop :=
  ∀ d, m.descriptor? s = some d → d.Confined env ∧ (d.isOwner = true → d.Typed)

/-- Where descriptors whose storage is confined own a forest, this holds of all descriptors on the
    way. -/
theorem Memory.Ready.confinedAt {m : Memory} {env : Environment} {slots : List Address} {f : Forest}
    (h : m.Ready (Descriptor.Confined env) slots f) {s : Address} (reached : m.Reaches slots s) :
    m.ConfinedAt env s := by
  intro d there
  obtain ⟨tree, owns⟩ := h.exists_owns_of_reaches reached there
  refine ⟨owns.fine d List.mem_cons_self, fun owner => ?_⟩
  cases owns with
  | idle _ idle => simp [owner] at idle
  | own _ backs => exact backs.typed

/-! ### Memory in between -/

namespace Memory

variable {m m' m'' : Memory} {W : Set Location}

/-- Changes elsewhere keep descriptors and blocks. -/
theorem Keeps.changes {slots : List Address} {blocks : List Nat} (h : m.Keeps m' slots blocks)
    (changes : m'.Changes W m'')
    (elsewhere : ∀ s ∈ slots, extent s.region ∉ W ∧ Disjoint (span s descriptorBytes) W)
    (elsewhere' : Disjoint (inBlocks blocks) W) : m.Keeps m'' slots blocks where
  placement := changes.placement.trans h.placement
  tables := changes.tables.trans h.tables
  slots := by
    intro s mem
    obtain ⟨extent, bytes⟩ := elsewhere s mem
    have same : m'.SameOn (insert (.extent s.region) (span s descriptorBytes)) m'' :=
      changes.sameOn (Set.disjoint_insert_left.mpr ⟨extent, bytes⟩)
    exact (h.slots s mem).trans (same.agrees (Set.mem_insert ..) (Set.subset_insert ..))
  blocks := by
    intro b mem
    refine (SameAt.region? fun l here => ?_).trans (h.blocks b mem)
    exact changes.sameAt l (Set.disjoint_left.mp elsewhere' ⟨b, mem, here⟩)

/-- Changes elsewhere keep memory as it is awaited. -/
theorem Awaits.changes {slots : List Address} {f : Forest} (h : m.Awaits m' slots f)
    (changes : m'.Changes W m'')
    (elsewhere : ∀ s ∈ slots, extent s.region ∉ W ∧ Disjoint (span s descriptorBytes) W)
    (elsewhere' : Disjoint (inBlocks f.numbers) W) : m.Awaits m'' slots f where
  toKeeps := h.toKeeps.changes changes elsewhere elsewhere'
  apart := h.apart
  outside := h.outside
  distinct := h.distinct

/-- What one descriptor owns may be changed together with it. The others are still awaited. -/
theorem Awaits.after {s : Address} {slots : List Address} {f g : Forest}
    (h : m.Awaits m' (s :: slots) (f.append g))
    (changes : m'.Changes (span s descriptorBytes ∪ inBlocks f.numbers) m'') :
    m.Awaits m'' slots g := by
  obtain ⟨head, apart⟩ := List.pairwise_cons.mp h.apart
  obtain ⟨_, distinct, disjoint⟩ := h.distinct.of_append
  have outside : ∀ t ∈ slots, ∀ b ∈ f.numbers, t.region ≠ .heap b := fun t mem b there =>
    h.outside t (List.mem_cons_of_mem _ mem) b (by simp [there])
  have rest : m.Awaits m' slots g :=
    { toKeeps := h.toKeeps.mono (fun t mem => List.mem_cons_of_mem _ mem) fun b mem => by simp [mem]
      apart := apart
      outside := fun t mem b there => h.outside t (List.mem_cons_of_mem _ mem) b (by simp [there])
      distinct := distinct }
  refine rest.changes changes (fun t mem => ⟨?_, ?_⟩) ?_
  · rintro (here | ⟨b, there, same⟩)
    · exact extent_not_mem_span here
    · exact outside t mem b there same
  · refine Set.disjoint_left.mpr fun l here => ?_
    rintro (here' | ⟨b, there, same⟩)
    · obtain ⟨x, rfl, inside⟩ := mem_span here
      exact head t mem x here' inside
    · exact outside t mem b there ((region_of_mem_span here).symm.trans same)
  · refine Set.disjoint_left.mpr ?_
    rintro l ⟨b, mem, same⟩ (here | ⟨c, there, same'⟩)
    · exact h.outside s List.mem_cons_self b (by simp [mem])
        ((region_of_mem_span here).symm.trans same)
    · rw [same] at same'
      cases same'
      exact disjoint b there mem

end Memory

/-! ### Releases -/

/-- A block has room for the elements that its descriptor describes. -/
theorem Memory.Stores.admits {m : Memory} {d : Descriptor} {block size : Nat}
    (h : m.Stores d block size) :
    m.Admits ⟨.heap block, 0⟩ (d.elementCount * d.elementSize.toNat) := by
  obtain ⟨bytes, live, same⟩ := Option.map_eq_some_iff.mp h.live
  refine .inr (spans_iff.mpr ⟨bytes, live, ?_⟩)
  rw [same, Nat.zero_add]
  exact (Descriptor.elements_le_blockSize h.size).1

/-- Changes in a zone and in some blocks keep the sizes of all regions but these blocks. -/
theorem Memory.Changes.size_region? {m m' : Memory} {z : Zone} {blocks : List Nat}
    (h : m.Changes (z.span ∪ inBlocks blocks) m') {region : Region}
    (outside : ∀ b ∈ blocks, region ≠ .heap b) :
    (m'.region? region).map (·.size) = (m.region? region).map (·.size) :=
  h.sameAt (.extent region) fun mem => mem.elim z.extent_not_mem_span fun ⟨b, there, same⟩ =>
    outside b there same

/-- A descriptor still owns its block after changes that free only others. -/
theorem Memory.Stores.of_changes {m m' : Memory} {d : Descriptor} {block size : Nat} {z : Zone}
    {blocks : List Nat} (h : m.Stores d block size)
    (changes : m.Changes (z.span ∪ inBlocks blocks) m') (other : block ∉ blocks) :
    m'.Stores d block size :=
  { h with
    live := (changes.size_region? fun b mem same => other (by cases same; exact mem)).trans h.live }

/-- The zone of a single descriptor. -/
def Zone.slot (s : Address) : Zone := ⟨s, descriptorBytes, [s]⟩

/-- A descriptor of a zone is a part of it. -/
theorem Zone.Closed.slot_within {z : Zone} (h : z.Closed) {s : Address} (mem : s ∈ z.slots) :
    (Zone.slot s).Within z where
  exists_offset := h s mem
  writable := fun _ here => absurd here.1 (here.2 s List.mem_cons_self)

namespace Run.Acts

variable {m : Memory} {R : Set Location} {d : Descriptor} {block size : Nat} {s : Address}

/-- A live block is given back. -/
theorem freeStorage (known : extent (.heap block) ∈ R) (stores : m.Stores d block size) :
    Acts R (inBlocks [block]) m (Run.freeStorage d ⟨.heap block, 0⟩) d.freeEvents
      (m.release block) where
  changes := m.changes_release block
  run := by
    intro M same
    have live : (M.memory.region? (.heap block)).map (·.size) =
        (m.region? (.heap block)).map (·.size) :=
      same.sameAt _ known
    have stores' : M.memory.Stores d block size := { stores with live := live.trans stores.live }
    exact ⟨M.memory.release block, freeStorage_of_stores stores', M.memory.changes_release block,
      same.release block⟩

/-- Taking a base away changes eight bytes. -/
theorem clearBase (known : extent s.region ∈ R) (fits : m.Admits s 8) :
    Acts R (Location.span s 8) m (Run.clearBase s) [] (m.clearBase s) := by
  have eight : (List.replicate 8 (0 : UInt8)).length = 8 := List.length_replicate
  exact writeBytes known (eight ▸ fits)

end Run.Acts

namespace TeardownStep

variable {env : Environment} {m₀ m m₁ : Memory} {depth : Nat} {ty : DerivedType} {c : Component}
  {s : Address} {finalize : Bool} {d : Descriptor} {block size : Nat} {inside f : Forest} {z : Zone}
  {es : List Event}

/-- A step that releases nothing looks at the zone that it is confined to. -/
theorem exists_acts_silent {step : TeardownStep} (resolved : step.Resolved)
    (silent : step.slot? = none) (confined : step.Confined env z)
    (room : m.Admits z.address z.size) :
    ∃ m', ∀ depth, Run.Acts z.readable z.writable m (step.run env depth)
      (step.idleEvents env) m' := by
  cases step with
  | finalizeScalar ty p entry a =>
    refine ⟨(env.code entry (.scalar a) m).2, fun depth => ?_⟩
    rw [TeardownStep.run]
    exact (Run.Acts.trace _ _ m env _).bind (Environment.Confined.acts confined p room)
  | finalizeArray ty p entry view =>
    refine ⟨(env.code entry (.array view) m).2, fun depth => ?_⟩
    rw [TeardownStep.run]
    exact (Run.Acts.trace _ _ m env _).bind (Environment.Confined.acts confined p room)
  | enterComponents ty | enterParent ty parent =>
    refine ⟨m, fun depth => ?_⟩
    rw [TeardownStep.run]
    exact .trace _ _ m env _
  | release => cases silent
  | orphan => exact False.elim resolved

/-- The release of a descriptor that owns nothing looks at this descriptor. -/
theorem acts_release_of_idle (here : m₀.Agrees m s descriptorBytes)
    (room : m₀.spans s descriptorBytes) (there : m₀.descriptor? s = some d)
    (idle : d.isOwner = false) (depth : Nat) :
    Run.ActsOn (Zone.slot s) [] m ((release ty c s finalize).run env depth) [] m := by
  refine .of_events fun M same => ?_
  have same := same.mono Set.subset_union_left
  have now :=
    here.trans (same.agrees (Zone.slot s).extent_mem_readable (Zone.slot s).span_subset_readable)
  rw [Machine.recordAll_nil]
  exact run_release_of_idle (now.spans.trans room) ((now.descriptor? room).trans there) idle

/-- The release of a block looks at the descriptor and at the tree of blocks, if the teardown of
    what is in the block looks at the block and at the blocks inside. -/
theorem acts_release_of_owner (here : m₀.Agrees m s descriptorBytes)
    (room : m₀.spans s descriptorBytes) (there : m₀.descriptor? s = some d)
    (stores : m.Stores d block size) (inBlock : z.address.region = .heap block)
    (outside : ∀ b ∈ (Forest.cons block size inside .nil).numbers, s.region ≠ .heap b)
    (fresh : block ∉ inside.numbers)
    (contents : Run.ActsOn z inside.numbers m
      ((d.storageSteps env.context finalize).forM (run env depth)) es m₁) :
    Run.ActsOn (Zone.slot s) (Forest.cons block size inside .nil).numbers m
      ((release ty c s finalize).run env (depth + 1))
        (env.traceEvents (.release ty c) ++ es ++ d.freeEvents)
      ((m₁.release block).clearBase s) := by
  have room' : m.spans s descriptorBytes := here.spans.trans room
  have root : block ∈ (Forest.cons block size inside .nil).numbers := by simp
  have torn : Run.ActsOn (Zone.slot s) (Forest.cons block size inside .nil).numbers m
      ((d.storageSteps env.context finalize).forM (run env depth)) es m₁ :=
    contents.of_block inBlock root fun b mem => by simp [mem]
  -- The teardown of the contents frees neither the block nor the one that the descriptor is in.
  have still : m₁.Stores d block size := stores.of_changes contents.changes fresh
  have freed : Run.ActsOn (Zone.slot s) (Forest.cons block size inside .nil).numbers m₁
      (Run.freeStorage d ⟨.heap block, 0⟩) d.freeEvents (m₁.release block) :=
    (Run.Acts.freeStorage (.inr ⟨block, root, rfl⟩) still).mono subset_rfl
      (Set.subset_union_of_subset_right
        (inBlocks_mono fun b mem => by simp [List.mem_singleton.mp mem]) _)
      (Set.subset_union_of_subset_right
        (inBlocks_mono fun b mem => by simp [List.mem_singleton.mp mem]) _)
  have room₁ : (m₁.release block).spans s descriptorBytes := by
    have elsewhere : (m₁.release block).region? s.region = m₁.region? s.region := by
      rw [Memory.region?_release, if_neg (outside block root)]
    have sizes := contents.changes.size_region? fun b mem => outside b (by simp [mem])
    rw [Memory.spans_congr elsewhere, Memory.spans_of_size sizes]
    exact room'
  have cleared : Run.ActsOn (Zone.slot s) (Forest.cons block size inside .nil).numbers
      (m₁.release block)
      (Run.clearBase s) [] ((m₁.release block).clearBase s) :=
    (Run.Acts.clearBase (Zone.slot s).extent_mem_readable
      (.inr (Memory.spans_of_le room₁ (by decide)))).on
      (span_subset (show 0 + 8 ≤ descriptorBytes by decide))
  have traced : Run.ActsOn (Zone.slot s) (Forest.cons block size inside .nil).numbers m
      (Run.trace env (.release ty c)) (env.traceEvents (.release ty c)) m := .trace _ _ m env _
  have body := traced.bind (torn.bind (freed.bind cleared))
  rw [List.append_nil, ← List.append_assoc] at body
  rw [TeardownStep.run]
  refine Run.Acts.after_read (a := some (d, ⟨.heap block, 0⟩)) (fun M same => ?_) ?_
  · have same := same.mono Set.subset_union_left
    have now :=
      here.trans (same.agrees (Zone.slot s).extent_mem_readable (Zone.slot s).span_subset_readable)
    have found := (now.descriptor? room).trans there
    have owns := (Memory.ownsStorage_of_descriptor? found).trans stores.owner
    rw [Run.readOwner_of_owns (now.spans.trans room) owns found, stores.base]
    rfl
  · dsimp only
    rw [Descriptor.forArraySteps_eq, ← stores.storageSteps]
    exact body

/-- Steps act one after the other, at every depth that is enough for the trees of both. -/
theorem acts_cons {step : TeardownStep} {rest : List TeardownStep} {g : Forest} {m₂ : Memory}
    (first : ∀ depth, f.height ≤ depth →
      Run.ActsOn z f.numbers m (step.run env depth) (step.events env m₀ depth) m₁)
    (others : ∀ depth, g.height ≤ depth →
      Run.ActsOn z g.numbers m₁ (rest.forM (run env depth)) (rest.flatMap (events env m₀ depth)) m₂)
    (depth : Nat) (deep : (f.append g).height ≤ depth) :
    Run.ActsOn z (f.append g).numbers m ((step :: rest).forM (run env depth))
      ((step :: rest).flatMap (events env m₀ depth)) m₂ := by
  rw [Forest.height_append] at deep
  rw [List.forM_eq_forM, List.forM_cons, List.flatMap_cons]
  exact ((first depth (by omega)).within (.refl z) fun b mem => by simp [mem]).bind
    ((others depth (by omega)).within (.refl z) fun b mem => by simp [mem])

/-- The zone of storage holds the steps that tear it down. -/
theorem heldBy_storage (stores : m.Stores d block size) (typed : d.Typed)
    (confined : d.Confined env) (finalize : Bool) :
    HeldBy env (d.zone ⟨.heap block, 0⟩) (d.storageSteps env.context finalize) := by
  rw [stores.storageSteps]
  exact ⟨fun s mem => (d.released_arraySteps_withBase env.context typed _ finalize).mem_iff.mp mem,
    d.confined_arraySteps typed (confined stores.owner) _ finalize⟩

/-- Steps look at the zone that holds them, and at the blocks that they find. Where memory still has
    what they find, they do what memory tells, at every depth that is enough. -/
theorem Finds.exists_acts {steps : List TeardownStep}
    (h : Finds env.context m₀ (m₀.ConfinedAt env) steps f) (closed : z.Closed)
    (held : HeldBy env z steps) (outside : ∀ b ∈ f.numbers, z.address.region ≠ .heap b)
    (awaits : m₀.Awaits m (released steps) f) (room : m.Admits z.address z.size) :
    ∃ m', ∀ depth, f.height ≤ depth →
      Run.ActsOn z f.numbers m (steps.forM (run env depth))
        (steps.flatMap (events env m₀ depth)) m' := by
  induction h generalizing z m with
  | nil => exact ⟨m, fun _ _ => .pure _ _ m⟩
  | @silent step rest f resolved silent _ ih =>
    have same : released (step :: rest) = released rest := List.filterMap_cons_none silent
    rw [same] at awaits
    obtain ⟨m₁, first⟩ :=
      exists_acts_silent resolved silent (held.calls step List.mem_cons_self) room
    have changes := (first 0).changes
    -- A procedure changes no descriptor, and nothing outside of the zone.
    have still : m₀.Awaits m₁ (released rest) f := by
      refine awaits.changes changes (fun s mem => ⟨fun here => here.1, ?_⟩) ?_
      · exact Set.disjoint_left.mpr fun l here there => there.2 s (held.tail.slots s mem) here
      · refine Set.disjoint_left.mpr fun l here there => ?_
        obtain ⟨b, mem, region⟩ := here
        exact outside b mem ((region_of_mem_span there.1).symm.trans region)
    obtain ⟨m₂, others⟩ :=
      ih closed held.tail outside still (changes.admits (fun here => here.1) room)
    refine ⟨m₂, acts_cons (f := .nil) (fun depth _ => ?_) others⟩
    rw [events_of_silent silent]
    exact (first depth).on z.writable_subset_span
  | @idle ty c s finalize d rest f _ roomHere there idle _ ih =>
    have mem : s ∈ released (release ty c s finalize :: rest) := List.mem_cons_self
    have still : m₀.Awaits m (released rest) f := awaits.after (f := .nil) (.refl m _)
    obtain ⟨m₁, others⟩ := ih closed held.tail outside still room
    refine ⟨m₁, acts_cons (f := .nil) (fun depth _ => ?_) others⟩
    rw [events_of_not_owner there idle]
    exact (acts_release_of_idle (awaits.slots s mem) roomHere there idle depth).within
      (closed.slot_within (held.slots s mem)) nofun
  | @own ty c s finalize d block size rest inside f fine roomHere there stores apart within _
      _ insideIh restIh =>
    have mem : s ∈ released (release ty c s finalize :: rest) := List.mem_cons_self
    have awaits : m₀.Awaits m (s :: released rest)
        ((Forest.cons block size inside .nil).append f) := awaits
    have tree : m₀.Awaits m [s] (.cons block size inside .nil) := Memory.Awaits.left awaits
    have outside : ∀ b ∈ ((Forest.cons block size inside .nil).append f).numbers,
        z.address.region ≠ .heap b := outside
    obtain ⟨confined, typed⟩ := fine d there
    have typed := typed stores.owner
    have storesHere : m.Stores d block size :=
      { stores with live := by rw [tree.blocks block (by simp), stores.live] }
    -- The storage is a zone of its own, and all of it lies in the block.
    obtain ⟨m₁, contents⟩ := insideIh (d.zone_closed typed ⟨.heap block, 0⟩)
      (heldBy_storage stores typed confined finalize)
      (fun b there same => tree.distinct.not_mem_inside (by cases same; exact there))
        (tree.contents apart within)
      storesHere.admits
    have first (depth : Nat) (deep : (Forest.cons block size inside .nil).height ≤ depth) :
        Run.ActsOn (Zone.slot s) (Forest.cons block size inside .nil).numbers m
          ((release ty c s finalize).run env depth) ((release ty c s finalize).events env m₀ depth)
          ((m₁.release block).clearBase s) := by
      obtain ⟨below, rfl, deepInside, _⟩ := Forest.exists_depth_of_height_le deep
      rw [events_of_owner there stores.owner]
      exact acts_release_of_owner (tree.slots s List.mem_cons_self) roomHere there storesHere rfl
        (tree.outside s List.mem_cons_self) tree.distinct.not_mem_inside (contents below deepInside)
    have changes := (first _ (Nat.le_refl _)).changes
    have roomAfter :=
      changes.admits (fun here => here.elim extent_not_mem_span fun ⟨b, there, same⟩ =>
        outside b (by rw [Forest.numbers_append]; exact List.mem_append_left _ there) same) room
    obtain ⟨m₂, others⟩ := restIh closed held.tail
      (fun b there =>
        outside b (by rw [Forest.numbers_append]; exact List.mem_append_right _ there))
      (awaits.after changes) roomAfter
    exact ⟨m₂, acts_cons (fun depth deep =>
      (first depth deep).within (closed.slot_within (held.slots s mem))
      fun _ here => here) others⟩

/-- Descriptors in a zone that own blocks keep the zone outside of these. -/
theorem outside_of_ready {P : Descriptor → Prop} {slots : List Address} (closed : z.Closed)
    (inside : ∀ s ∈ slots, s ∈ z.slots) (ready : m.Ready P slots f) :
    ∀ b ∈ f.numbers, z.address.region ≠ .heap b := by
  intro b mem
  cases slots with
  | nil =>
    have owns := ready.owns
    cases owns
    cases mem
  | cons s rest =>
    rw [← closed.region (inside s List.mem_cons_self)]
    exact ready.outside s List.mem_cons_self b mem

end TeardownStep

/-! ### Whole teardowns -/

namespace TeardownStep

variable {env : Environment} {m : Memory} {z : Zone} {steps : List TeardownStep} {f : Forest}

/-- Prepared steps look at the zone that holds them, and at the blocks that they find, and they do
    what memory tells. -/
theorem Prepared.exists_acts (h : Prepared env.context m (m.ConfinedAt env) steps f)
    (closed : z.Closed) (held : HeldBy env z steps)
    (outside : ∀ b ∈ f.numbers, z.address.region ≠ .heap b) (room : m.Admits z.address z.size) :
    ∃ m', Run.ActsOn z f.numbers m (do let depth ← Run.ownershipDepth; steps.forM (run env depth))
      (steps.flatMap (events env m f.height)) m' := by
  obtain ⟨m', acts⟩ :=
    h.finds.exists_acts closed held outside ⟨.refl .., h.apart, h.outside, h.distinct⟩ room
  refine ⟨m', (acts _ (Nat.le_refl _)).changes, fun M same => ?_⟩
  -- How many bytes memory has depends on all of it, but it has enough of them as long as the blocks
  -- are there.
  have deep : f.height ≤ M.memory.byteCount := h.height_le_byteCount_of_size fun b mem =>
    same.sameAt (.extent (.heap b)) (.inr ⟨b, mem, rfl⟩)
  rw [h.finds.events_eq (Nat.le_refl _) deep]
  exact (acts M.memory.byteCount deep).run M same

/-- Where descriptors in a zone own blocks, the teardown of what they own looks at the zone and at
    these blocks, changes nothing else, and does what memory tells. -/
theorem exists_acts_of_ready (closed : z.Closed) (held : HeldBy env z steps)
    (resolved : ∀ step ∈ steps, step.Resolved) (room : m.Admits z.address z.size)
    (ready : m.Ready (Descriptor.Confined env) (released steps) f) :
    ∃ g m', Prepared env.context m (m.ConfinedAt env) steps g ∧ f.Similar g ∧
      Run.ActsOn z f.numbers m (do let depth ← Run.ownershipDepth; steps.forM (run env depth))
        (steps.flatMap (events env m g.height)) m' := by
  obtain ⟨g, prepared, similar⟩ :=
    ready.exists_prepared (.refl _) resolved fun _ => ready.confinedAt
  obtain ⟨m', acts⟩ := prepared.exists_acts closed held
    (fun b mem => outside_of_ready closed held.slots ready b (similar.mem_iff.mpr mem)) room
  exact ⟨g, m', prepared, similar, acts.within (.refl _) fun b mem => similar.mem_iff.mpr mem⟩

end TeardownStep

namespace DerivedType

variable {env : Environment} {m : Memory} {ty : DerivedType} {a : Address} {f : Forest}

/-- The teardown of an instance looks at the instance and at the blocks that descriptors in it own,
    and changes nothing else. -/
theorem exists_acts_destroyScalar (sound : ty.Throughout TeardownSound)
    (confined : ty.Throughout (Confined env)) (room : m.Admits a ty.size.toNat)
    (ready : m.Ready (Descriptor.Confined env) (ty.slots a) f) (finalize : Bool) :
    ∃ es m', Run.ActsOn (ty.zone a) f.numbers m (ty.destroyScalar env a finalize) es m' := by
  have order := released_scalarSteps env.context sound a finalize
  obtain ⟨g, ready, similar⟩ := ready.perm order.symm
  obtain ⟨_, m', _, _, action⟩ :=
    exists_acts_of_ready (zone_closed (sound.imp fun _ sound => sound.laidOut) a)
    ⟨fun s mem => order.mem_iff.mp mem, confined_scalarSteps sound confined (.refl _) finalize⟩
    (resolved_scalarSteps env.context sound a finalize) room ready
  rw [destroyScalar_eq]
  exact ⟨_, m', action.within (.refl _) fun b mem => similar.mem_iff.mpr mem⟩

end DerivedType

end DerivedTypes
