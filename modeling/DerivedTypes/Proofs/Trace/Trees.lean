import DerivedTypes.Proofs.Locality.Commute
import DerivedTypes.Proofs.Trace.Releases

namespace DerivedTypes

/-!
# Traces of operations on ownership trees

If what an operation tears down is a forest of blocks, and procedures are confined to what they are
given, the operation ends well, with the events that memory tells. So each release ends: what is in
its block is torn down as it would be alone, and then the block is freed, which happens only once.

* `LifecycleOperation.OnTrees`: what an operation tears down is well-formed;
* `ReleasesEnd`: each release among some events ends. This holds of what memory tells
  (`TeardownStep.Finds.releasesEnd`);
* `Forest.FreedIn`: some events free each block of a forest once;
* `LifecycleOperation.OnTrees.exists_run`: an operation on trees ends well and frees a forest;
* `Environment.trace_tells_truth`: what traces say about calls and releases is what happens.
-/

/-- What an operation tears down is a forest of blocks: the tables are sound, the memory that the
    operation looks at is there, descriptors in it own distinct blocks, and procedures are confined
    to what they are given. -/
inductive LifecycleOperation.OnTrees (env : Environment) (m : Memory) : LifecycleOperation → Prop
  | destroyComponents {ty : DerivedType} {a : Address} {f : Forest}
      (sound : ty.Throughout DerivedType.TeardownSound)
      (confined : ty.Throughout (DerivedType.Confined env)) (room : m.Admits a ty.size.toNat)
      (ready : m.Ready (Descriptor.Confined env) (ty.slots a) f) (finalize : Bool) :
      OnTrees env m (.destroyComponents ty a finalize)
  | destroyScalar {ty : DerivedType} {a : Address} {f : Forest}
      (sound : ty.Throughout DerivedType.TeardownSound)
      (confined : ty.Throughout (DerivedType.Confined env)) (room : m.Admits a ty.size.toNat)
      (ready : m.Ready (Descriptor.Confined env) (ty.slots a) f) (finalize : Bool) :
      OnTrees env m (.destroyScalar ty a finalize)
  | destroyElements {d : Descriptor} {data : Address} {f : Forest} (typed : d.Typed)
      (confined : ∀ ty, d.derivedType? = some ty → ty.Throughout (DerivedType.Confined env))
      (room : m.Admits data (d.elementCount * d.elementSize.toNat))
      (ready : m.Ready (Descriptor.Confined env) ({ d with base := some data } : Descriptor).slots
        f)
      (finalize : Bool) : OnTrees env m (.destroyElements d (some data) finalize)
  | destroyNothing (d : Descriptor) (finalize : Bool) :
      OnTrees env m (.destroyElements d none finalize)
  | deallocate {d : Descriptor} {f : Forest} (owns : m.Owns (Descriptor.Confined env) [d] f)
      (distinct : f.Distinct)
      (finalize : Bool) : OnTrees env m (.deallocate d finalize)

/-! ### Releases that end -/

/-- In memory, a component holds the descriptor `d`, which owns `block`, and to tear down the
    elements in this block adds the events `contents`. -/
structure BlockContents (env : Environment) (M : Machine) (ty : DerivedType) (c : Component)
    (d : Descriptor) (block : Nat) (contents : List Event) : Prop where
  member : c ∈ ty.components
  slot : c.isDescriptor = true
  owner : d.isOwner = true
  base : d.base = some ⟨.heap block, 0⟩
  there : ∃ a : Address, M.memory.descriptor? (a + c.offset.toNat) = some d
  tornDown : ∃ finalize torn, d.destroyElements env (some ⟨.heap block, 0⟩) finalize M =
    .ok () torn ∧
    torn.events = M.events ++ contents.toArray

/-- Behind each release among some events are those of tearing down what is in the block of the
    component, and then the block is freed. -/
def ReleasesEnd (env : Environment) (M : Machine) (es : List Event) : Prop :=
  ∀ before ty c after, es = before ++ .trace (.release ty c) :: after →
    ∃ d block size contents rest, BlockContents env M ty c d block contents ∧
      after = contents ++ [.log (.freeing size d.typeCode), .freed block size] ++ rest

/-- An event among those of two lists is in the first or in the second one. -/
theorem Event.exists_of_append_eq {first second before after : List Event} {event : Event}
    (split : first ++ second = before ++ event :: after) :
    (∃ rest, first = before ++ event :: rest ∧ after = rest ++ second) ∨
    ∃ earlier, before = first ++ earlier ∧ second = earlier ++ event :: after := by
  rcases List.append_eq_append_iff.mp split with ⟨earlier, begins, ends⟩ | ⟨rest, begins, ends⟩
  · exact .inr ⟨earlier, begins, ends⟩
  · cases rest with
    | nil => exact .inr ⟨[], by simpa using begins.symm, by simpa using ends.symm⟩
    | cons other rest =>
      obtain ⟨rfl, rfl⟩ := List.cons.inj ends
      exact .inl ⟨rest, begins, rfl⟩

namespace ReleasesEnd

variable {env : Environment} {M : Machine} {es es' contents : List Event} {ty : DerivedType}
  {c : Component} {d : Descriptor} {block : Nat}

/-- Among events that announce no release, all releases end. -/
theorem of_quiet (quiet : ∀ event ∈ es, event.isRelease = false) : ReleasesEnd env M es := by
  intro before ty c after split
  have announced := quiet (.trace (.release ty c)) (by simp [split])
  cases announced

/-- Releases end in each part of the events. -/
theorem append (h : ReleasesEnd env M es) (h' : ReleasesEnd env M es') :
    ReleasesEnd env M (es ++ es') := by
  intro before ty c after split
  rcases Event.exists_of_append_eq split with ⟨rest, there, rfl⟩ | ⟨earlier, _, there⟩
  · obtain ⟨d, block, size, contents, others, owned, rfl⟩ := h before ty c rest there
    exact ⟨d, block, size, contents, others ++ es', owned, List.append_assoc ..⟩
  · exact h' earlier ty c after there

/-- A release ends if those inside it do. -/
theorem release (owned : BlockContents env M ty c d block contents)
    (inside : ReleasesEnd env M contents) (size : Nat) :
    ReleasesEnd env M
      (.trace (.release ty c) ::
        (contents ++ [.log (.freeing size d.typeCode), .freed block size])) := by
  have quiet : ReleasesEnd env M [.log (.freeing size d.typeCode), .freed block size] :=
    of_quiet (by simp [Event.isRelease])
  intro before ty' c' after split
  cases before with
  | nil =>
    obtain ⟨same, rfl⟩ := List.cons.inj split
    cases same
    exact ⟨d, block, size, contents, [], owned, (List.append_nil _).symm⟩
  | cons first before => exact inside.append quiet before ty' c' after (List.cons.inj split).2

end ReleasesEnd

/-! ### What memory tells -/

/-- Events free every block of a forest once, and nothing else. -/
def Forest.FreedIn (f : Forest) (es : List Event) : Prop :=
  (es.filterMap Event.freedBlock?).Perm f.numbers

namespace Forest.FreedIn

variable {f : Forest} {es : List Event}

/-- Steps free the forest that they find. -/
theorem of_finds {env : Environment} {m : Memory} {Q : Address → Prop} {steps : List TeardownStep}
    {depth : Nat} (finds : TeardownStep.Finds env.context m Q steps f) (distinct : f.Distinct)
    (deep : f.height ≤ depth) :
    f.FreedIn (steps.flatMap (TeardownStep.events env m depth)) := by
  obtain ⟨freed, uses, blocks, _⟩ := finds.exists_freed distinct deep
  have same : (steps.flatMap (TeardownStep.events env m depth)).filterMap Event.freedBlock? =
      freed.map (·.1) := by
    show List.filterMap (fun event : Event => event.heapUse?.bind HeapUse.freedBlock?) _ = _
    rw [← List.filterMap_filterMap, uses, List.filterMap_map]
    show freed.filterMap (some ∘ fun block : Nat × Nat => block.1) = _
    rw [List.filterMap_eq_map]
  rw [FreedIn, same]
  exact blocks.map _

/-- After a forest, the block around it is freed. -/
theorem node {m : Memory} {d : Descriptor} {block size : Nat} (h : f.FreedIn es)
    (stores : m.Stores d block size) :
    (Forest.cons block size f .nil).FreedIn (es ++ d.freeEvents) := by
  rw [FreedIn, stores.freeEvents, List.filterMap_append, Forest.numbers_cons]
  exact h.append_right _

/-- Each block of a forest is freed once. -/
theorem count_eq_one (h : f.FreedIn es) (distinct : f.Distinct) {block size : Nat}
    (mem : .freed block size ∈ es) :
    (es.filterMap Event.freedBlock?).count block = 1 :=
  List.count_eq_one_of_mem (h.nodup_iff.mpr distinct) (List.mem_filterMap.mpr ⟨_, mem, rfl⟩)

end Forest.FreedIn

namespace TeardownStep

variable {env : Environment} {M : Machine} {z : Zone} {steps : List TeardownStep} {f : Forest}

/-- A step that releases nothing announces no release. -/
theorem not_isRelease_of_mem_idleEvents (env : Environment) (step : TeardownStep) :
    ∀ event ∈ step.idleEvents env, event.isRelease = false := by
  cases step <;> simp [idleEvents, Environment.traceEvents] <;> grind [Event.isRelease]

/-- What is in a block that steps find can be torn down in memory as it is, with the events that it
    tells. -/
theorem Finds.exists_destroyElements {d : Descriptor} {block size : Nat}
    {inside : Forest} {finalize : Bool}
    (h : Finds env.context M.memory (M.memory.ConfinedAt env)
      (d.storageSteps env.context finalize) inside)
    (stores : M.memory.Stores d block size) (typed : d.Typed) (confined : d.Confined env)
    (apart : (released (d.storageSteps env.context finalize)).Pairwise fun s t =>
      Address.Apart s descriptorBytes t descriptorBytes)
    (within : ∀ t ∈ released (d.storageSteps env.context finalize), t.region = .heap block)
    (distinct : (Forest.cons block size inside .nil).Distinct) :
    ∃ torn, d.destroyElements env (some ⟨.heap block, 0⟩) finalize M = .ok () torn ∧
      torn.events =
        M.events ++ ((d.storageSteps env.context finalize).flatMap
          (events env M.memory inside.height)).toArray := by
  have outside : ∀ b ∈ inside.numbers, Region.heap block ≠ .heap b := fun b there same =>
    distinct.not_mem_inside (by cases same; exact there)
  have prepared : Prepared env.context M.memory (M.memory.ConfinedAt env)
      (d.storageSteps env.context finalize) inside :=
    ⟨h, apart, fun s mem => by rw [within s mem]; exact outside, distinct.of_inside⟩
  obtain ⟨m', acts⟩ := prepared.exists_acts (d.zone_closed typed ⟨.heap block, 0⟩)
    (heldBy_storage stores typed confined finalize) outside stores.admits
  obtain ⟨n, ran, _⟩ := acts.run M (.refl ..)
  rw [stores.storageSteps] at ran
  rw [Descriptor.destroyElements_eq, stores.storageSteps]
  exact ⟨_, ran, rfl⟩

/-- In what memory tells of steps, each release ends. -/
theorem Finds.releasesEnd (traced : env.traces = true)
    (h : Finds env.context M.memory (M.memory.ConfinedAt env) steps f) {finalize : Bool}
    (arises : ∀ step ∈ steps, step.Arises env.context finalize)
    (distinct : f.Distinct) {depth : Nat}
    (deep : f.height ≤ depth) : ReleasesEnd env M (steps.flatMap (events env M.memory depth)) := by
  induction h generalizing depth finalize with
  | nil => exact .of_quiet (by simp)
  | @silent step rest f _ silent _ ih =>
    rw [List.flatMap_cons, events_of_silent silent]
    exact (ReleasesEnd.of_quiet (not_isRelease_of_mem_idleEvents env step)).append
      (ih (fun step mem => arises step (List.mem_cons_of_mem _ mem)) distinct deep)
  | idle _ _ there idle _ ih =>
    rw [List.flatMap_cons, events_of_not_owner there idle, List.nil_append]
    exact ih (fun step mem => arises step (List.mem_cons_of_mem _ mem)) distinct deep
  | @own ty c s below d block size rest inside f fine _ there stores apart within finds
      _ insideIh restIh =>
    obtain ⟨depth, rfl, deepInside, deepRest⟩ := Forest.exists_depth_of_height_le deep
    have split : ((Forest.cons block size inside .nil).append f).Distinct := distinct
    obtain ⟨tree, others, _⟩ := split.of_append
    obtain ⟨confined, typed⟩ := fine d there
    have steps : ∀ step ∈ d.storageSteps env.context below,
        step.Arises env.context (below && !d.isFinalizationSuppressed) := by
      rw [stores.storageSteps]
      exact d.arises_arraySteps env.context _ below
    obtain ⟨torn, ran, contents⟩ :=
      finds.exists_destroyElements stores (typed stores.owner) confined apart within tree
    rw [finds.events_eq (Nat.le_refl _) deepInside] at contents
    rw [List.flatMap_cons, events_of_owner there stores.owner, stores.freeEvents,
      Environment.traceEvents, if_pos traced]
    refine ReleasesEnd.append ?_
      (restIh (fun step mem => arises step (List.mem_cons_of_mem _ mem)) others deepRest)
    cases arises _ List.mem_cons_self with
    | @release _ _ member slot a _ _ =>
      exact .release ⟨member, slot, stores.owner, stores.base, ⟨a, there⟩, below,
        torn, ran, contents⟩
        (insideIh steps tree.of_inside deepInside) size

end TeardownStep

/-! ### Operations on trees -/

/-- Where descriptors in a zone own a forest, the teardown of what they own ends well and frees the
    forest, and each release in it ends. Of memory nothing changes but the zone and the blocks. -/
theorem TeardownStep.exists_forM_of_ready {env : Environment} (traced : env.traces = true)
    {M : Machine} {z : Zone} {steps : List TeardownStep} {f : Forest} {finalize : Bool}
    (closed : z.Closed) (held : HeldBy env z steps)
    (arises : ∀ step ∈ steps, step.Arises env.context finalize)
    (resolved : ∀ step ∈ steps, step.Resolved) (room : M.memory.Admits z.address z.size)
    (ready : M.memory.Ready (Descriptor.Confined env) (released steps) f) :
    ∃ es n, (do let depth ← Run.ownershipDepth; steps.forM (run env depth) : Run Unit) M =
        .ok () ((M.recordAll es).withMemory n) ∧
      f.FreedIn es ∧ ReleasesEnd env M es ∧
      M.memory.Changes (z.span ∪ Location.inBlocks f.numbers) n := by
  obtain ⟨g, m', prepared, similar, acts⟩ := exists_acts_of_ready closed held resolved room ready
  obtain ⟨n, ran, changes, _⟩ := acts.run M (.refl ..)
  have freed := Forest.FreedIn.of_finds prepared.finds prepared.distinct (Nat.le_refl _)
  exact ⟨_, n, ran, freed.trans similar.numbers.symm,
    prepared.finds.releasesEnd traced arises prepared.distinct (Nat.le_refl _), changes⟩

namespace LifecycleOperation

variable {env : Environment} (traced : env.traces = true) {op : LifecycleOperation} {M : Machine}
include traced

/-- An operation on trees ends well and frees a forest, and each release in it ends. -/
theorem OnTrees.exists_run (h : op.OnTrees env M.memory) :
    ∃ (M' : Machine) (es : List Event) (f : Forest), op.run env M = .ok () M' ∧
      M'.events = M.events ++ es.toArray ∧ f.Distinct ∧ f.FreedIn es ∧ ReleasesEnd env M es := by
  cases h with
  | @destroyComponents ty a f sound confined room ready finalize =>
    have closed := DerivedType.zone_closed (sound.imp fun _ sound => sound.laidOut) a
    have order := DerivedType.released_componentSteps env.context sound a finalize
    obtain ⟨g, ready, _⟩ := ready.perm order.symm
    -- The parent field is left alone, with all that its descriptors own.
    obtain ⟨k, own⟩ := ready.of_append
    obtain ⟨es, n, ran, freed, ends, _⟩ := TeardownStep.exists_forM_of_ready traced closed
      ⟨fun s mem => order.mem_iff.mp (List.mem_append_left _ mem),
        DerivedType.confined_componentSteps sound confined (.refl _) finalize⟩
      (ty.arises_componentSteps env.context a finalize)
      (DerivedType.resolved_componentSteps env.context sound a finalize) room own
    rw [← DerivedType.destroyComponents_eq] at ran
    exact ⟨_, es, k, ran, rfl, own.distinct, freed, ends⟩
  | @destroyScalar ty a f sound confined room ready finalize =>
    have closed := DerivedType.zone_closed (sound.imp fun _ sound => sound.laidOut) a
    -- The steps come to the descriptors level by level, and so in another order.
    have order := DerivedType.released_scalarSteps env.context sound a finalize
    obtain ⟨g, ready, _⟩ := ready.perm order.symm
    obtain ⟨es, n, ran, freed, ends, _⟩ := TeardownStep.exists_forM_of_ready traced closed
      ⟨fun s mem => order.mem_iff.mp mem, DerivedType.confined_scalarSteps sound confined
        (.refl _) finalize⟩
      (ty.arises_scalarSteps env.context a finalize)
      (DerivedType.resolved_scalarSteps env.context sound a finalize) room ready
    rw [← DerivedType.destroyScalar_eq] at ran
    exact ⟨_, es, g, ran, rfl, ready.distinct, freed, ends⟩
  | @destroyElements d data f typed confined room ready finalize =>
    have order := d.released_arraySteps_withBase env.context typed data finalize
    obtain ⟨g, ready, _⟩ := ready.perm order.symm
    obtain ⟨es, n, ran, freed, ends, _⟩ :=
      TeardownStep.exists_forM_of_ready traced (d.zone_closed typed data)
      ⟨fun s mem => order.mem_iff.mp mem, d.confined_arraySteps typed confined data finalize⟩
      (d.arises_arraySteps env.context data finalize)
        (d.resolved_arraySteps env.context typed data finalize) room
      ready
    rw [← Descriptor.destroyElements_eq] at ran
    exact ⟨_, es, g, ran, rfl, ready.distinct, freed, ends⟩
  | destroyNothing d finalize =>
    exact ⟨M, [], .nil, rfl, by simp, List.nodup_nil, .refl _, .of_quiet (List.forall_mem_nil _)⟩
  | @deallocate d f owns distinct finalize =>
    cases owner : d.isOwner with
    | false =>
      have ran : d.deallocate env finalize M = _ :=
        Descriptor.deallocate_of_not_owner owner finalize
      exact ⟨M, [], .nil, Run.bind_of_ok ran,
        by simp, List.nodup_nil, .refl _, .of_quiet (List.forall_mem_nil _)⟩
    | true =>
      obtain ⟨block, size, inside, rfl, backs, ready⟩ := owns.exists_ready owner distinct
      have order := d.released_arraySteps env.context backs.typed backs.base finalize
      obtain ⟨g, ready, similar⟩ := ready.perm order.symm
      have held :=
        TeardownStep.heldBy_storage backs.stores backs.typed
          (owns.fine d List.mem_cons_self) finalize
      rw [backs.stores.storageSteps] at held
      obtain ⟨es, n, ran, freed, ends, changes⟩ := TeardownStep.exists_forM_of_ready traced
        (d.zone_closed backs.typed _) held (d.arises_arraySteps env.context _ finalize)
        (d.resolved_arraySteps env.context backs.typed _ finalize) backs.stores.admits ready
      rw [← Descriptor.destroyElements_eq] at ran
      -- The block lies outside of all that is freed in it, so it is still there to be given back.
      have still :=
        backs.stores.of_changes changes fun mem => distinct.not_mem_inside (similar.mem_iff.mpr mem)
      have freedInside : inside.FreedIn es := freed.trans similar.numbers.symm
      have quiet : ReleasesEnd env M d.freeEvents :=
        .of_quiet (by simp [backs.stores.freeEvents, Event.isRelease])
      exact ⟨_, _, _, Run.bind_of_ok (Descriptor.deallocate_of_destroyed backs.stores ran still),
        rfl, distinct,
        freedInside.node backs.stores, ends.append quiet⟩

end LifecycleOperation

/-! ### The truth of traces -/

/-- Behind each release among some events are those of tearing down what is in the block of the
    component. Then this block is freed, and nowhere else. -/
def ReleasesFree (env : Environment) (M : Machine) (es : List Event) : Prop :=
  ∀ before ty c after, es = before ++ .trace (.release ty c) :: after →
    ∃ d block size contents rest, BlockContents env M ty c d block contents ∧
      after = contents ++ [.log (.freeing size d.typeCode), .freed block size] ++ rest ∧
      (es.filterMap Event.freedBlock?).count block = 1

/-- What traces say is what happens, whatever the tables, memory and procedures are. -/
structure Environment.TraceTellsTruth (env : Environment) : Prop where
  /-- However an operation ends, calls and their announcements belong together. -/
  calls : ∀ (op : LifecycleOperation) (M : Machine), ∃ es : List Event,
    ((op.run env).leaves M).events = M.events ++ es.toArray ∧ TellsCalls env.context es
  /-- To give default values releases nothing. -/
  defaults : ∀ (op : LifecycleOperation) (M : Machine), op.isInitialization =
    true → ∃ es : List Event,
    ((op.run env).leaves M).events = M.events ++ es.toArray ∧ ∀ event ∈ es, event.isRelease = false
  /-- In an operation that ends well, releases are nested, and only a deallocation frees another
      block at last. -/
  releases : ∀ (op : LifecycleOperation) (M M' : Machine), op.run env M = .ok () M' → ∃ es last,
    M'.events = M.events ++ (es ++ last).toArray ∧ ReleasesNested env M.events es ∧ op.EndsWith last
  /-- An operation on trees ends well, and each release ends with the only free of its block. -/
  trees : ∀ (op : LifecycleOperation) (M : Machine), op.OnTrees env M.memory →
    ∃ (M' : Machine) (es : List Event),
    op.run env M = .ok () M' ∧ M'.events = M.events ++ es.toArray ∧ ReleasesFree env M es

/-- Where steps are traced, traces tell the truth. Calls are announced one by one, each directly
    before it is made and with the type of its procedure, also in operations that end in a fault.
    Releases are nested, and on ownership trees each of them is followed by the teardown of its
    block and then by the only free of this block. -/
theorem Environment.trace_tells_truth {env : Environment} (traced : env.traces = true) :
    env.TraceTellsTruth where
  calls := fun op M => by
    obtain ⟨es, events, announced⟩ := op.obeys_callsAnnounced traced M
    exact ⟨es, events, announced.tellsCalls⟩
  defaults := fun op M initialization => LifecycleOperation.obeys_noRelease env initialization M
  releases := fun _ _ _ ended => LifecycleOperation.exists_releasesNested traced ended
  trees := fun op M onTrees => by
    obtain ⟨M', es, f, ran, events, distinct, freed, ends⟩ := onTrees.exists_run traced
    refine ⟨M', es, ran, events, fun before ty c after split => ?_⟩
    obtain ⟨d, block, size, contents, rest, owned, rfl⟩ := ends before ty c after split
    have mem : .freed block size ∈ es := by
      rw [split]
      simp
    exact ⟨d, block, size, contents, rest, owned, rfl, freed.count_eq_one distinct mem⟩

/-! ### The trace of a list -/

namespace LinkedList

/-- Where procedures do nothing, and steps are traced. -/
def tracing : Environment := { environment with traces := true }

/-- A list of two nodes is a tree. -/
theorem deallocate_onTrees : (LifecycleOperation.deallocate (list 0) true).OnTrees tracing memory :=
  .deallocate (owns_of (confined_list tracing) fun owner => by cases owner) (by decide) true

end LinkedList

/-- The traces of the deallocation of a list tell the truth. -/
theorem Environment.trace_of_list_tells_truth : LinkedList.tracing.traces = true ∧
    ∃ (M' : Machine) (es : List Event),
      (LifecycleOperation.deallocate (LinkedList.list 0) true).run LinkedList.tracing
        ⟨LinkedList.memory, #[]⟩ =
        .ok () M' ∧
      M'.events = es.toArray ∧ ReleasesFree LinkedList.tracing ⟨LinkedList.memory, #[]⟩ es := by
  have truth : LinkedList.tracing.TraceTellsTruth := trace_tells_truth rfl
  obtain ⟨M', es, ran, events, released⟩ :=
    truth.trees _ ⟨LinkedList.memory, #[]⟩ LinkedList.deallocate_onTrees
  rw [Array.empty_append] at events
  exact ⟨rfl, M', es, ran, events, released⟩

end DerivedTypes
