import DerivedTypes.Proofs.Teardown.Account

namespace DerivedTypes

/-!
# What a teardown does

Steps find memory changed by the steps before them, but not where they look themselves. So they do
what memory told at first.

* `Memory.Awaits`: nothing that descriptors own has changed yet, and they lie apart from it;
* `TeardownStep.TearsDown`: steps end well, with the events that memory tells, and tear down a
  forest;
* `TearsDown.append`: so do several steps, one after the other, since a step leaves alone what
  others await;
* `TearsDown.of_owner`: so does the release of a descriptor, if the steps for its storage do;
* `Prepared.exists_forM`: so do prepared steps.
-/

/-! ### Memory in between -/

/-- Another memory has the same descriptors at some addresses, and the same blocks. -/
structure Memory.Keeps (m m' : Memory) (slots : List Address) (blocks : List Nat) : Prop where
  placement : m'.placement = m.placement
  tables : m'.tables = m.tables
  slots : ∀ s ∈ slots, m.Agrees m' s descriptorBytes
  blocks : ∀ b ∈ blocks, m'.region? (.heap b) = m.region? (.heap b)

namespace Memory.Keeps

variable {m m' m'' : Memory} {slots slots' : List Address} {blocks blocks' : List Nat}

/-- Memory keeps what it has. -/
theorem refl (m : Memory) (slots : List Address) (blocks : List Nat) : m.Keeps m slots blocks where
  placement := rfl
  tables := rfl
  slots := fun _ _ => agrees_of_region rfl rfl rfl _
  blocks := fun _ _ => rfl

/-- Memory keeps a part of what it keeps. -/
theorem mono (h : m.Keeps m' slots blocks) (sub : ∀ s ∈ slots', s ∈ slots)
    (sub' : ∀ b ∈ blocks', b ∈ blocks) :
    m.Keeps m' slots' blocks' where
  placement := h.placement
  tables := h.tables
  slots := fun s mem => h.slots s (sub s mem)
  blocks := fun b mem => h.blocks b (sub' b mem)

/-- Descriptors in a block that is the same are the same. -/
theorem of_block (h : m.Keeps m' slots blocks) {block : Nat} (mem : block ∈ blocks)
    (within : ∀ t ∈ slots', t.region = .heap block) (sub : ∀ b ∈ blocks', b ∈ blocks) :
    m.Keeps m' slots' blocks' where
  placement := h.placement
  tables := h.tables
  slots :=
    fun t there =>
      agrees_of_region h.placement h.tables (by rw [within t there, h.blocks block mem]) _
  blocks := fun b there => h.blocks b (sub b there)

/-- Releases elsewhere keep descriptors and blocks. -/
theorem tornDown (h : m.Keeps m' slots blocks) {freed : List Nat} {owners : List Address}
    (torn : m'.TornDown m'' freed owners)
    (apart : ∀ s ∈ owners, ∀ t ∈ slots, Address.Apart s descriptorBytes t descriptorBytes)
    (outside : ∀ t ∈ slots, ∀ b ∈ freed, t.region ≠ .heap b) (elsewhere : ∀ b ∈ blocks, b ∉ freed)
    (shared : ∀ s ∈ owners, ∀ b ∈ blocks, s.region ≠ .heap b) : m.Keeps m'' slots blocks where
  placement := torn.placement.trans h.placement
  tables := torn.tables.trans h.tables
  slots := fun t mem =>
    (h.slots t mem).trans (torn.agrees (outside t mem) fun s there => (apart s there t mem).symm)
  blocks := by
    intro b mem
    refine (torn.region? ?_ fun s there => shared s there b mem).trans (h.blocks b mem)
    rintro c there same
    cases same
    exact elsewhere b mem there

end Memory.Keeps

/-- Another memory still has some descriptors and the blocks of a forest. The descriptors lie apart
    from each other and outside of the blocks, which are all different. -/
structure Memory.Awaits (m m' : Memory) (descriptors : List Address) (f : Forest) : Prop extends
    m.Keeps m' descriptors f.numbers where
  apart : descriptors.Pairwise fun s t => Address.Apart s descriptorBytes t descriptorBytes
  outside : ∀ s ∈ descriptors, ∀ b ∈ f.numbers, s.region ≠ .heap b
  distinct : f.Distinct

namespace Memory.Awaits

variable {m m' m'' : Memory} {slots slots' : List Address} {f g inside : Forest} {s : Address}
  {block size : Nat}

/-- The steps in front are awaited. -/
theorem left (h : m.Awaits m' (slots ++ slots') (f.append g)) : m.Awaits m' slots f where
  toKeeps := h.toKeeps.mono (fun _ mem => List.mem_append_left _ mem) fun _ mem => by simp [mem]
  apart := (List.pairwise_append.mp h.apart).1
  outside := fun s mem b there => h.outside s (List.mem_append_left _ mem) b (by simp [there])
  distinct := h.distinct.of_append.1

/-- What lies apart from a release is still awaited. -/
theorem right (h : m.Awaits m' (slots ++ slots') (f.append g)) {owners : List Address}
    (sub : ∀ s ∈ owners, s ∈ slots) (torn : m'.TornDown m'' f.numbers owners) :
    m.Awaits m'' slots' g where
  toKeeps := by
    obtain ⟨_, _, disjoint⟩ := h.distinct.of_append
    refine (h.toKeeps.mono (fun _ mem => List.mem_append_right _ mem)
      fun _ mem => by simp [mem]).tornDown torn
      (fun s mem t there => (List.pairwise_append.mp h.apart).2.2 s (sub s mem) t there)
      (fun t mem b there => h.outside t (List.mem_append_right _ mem) b (by simp [there]))
      (fun b mem there => disjoint b there mem)
      fun s mem b there => h.outside s (List.mem_append_left _ (sub s mem)) b (by simp [there])
  apart := (List.pairwise_append.mp h.apart).2.1
  outside := fun s mem b there => h.outside s (List.mem_append_right _ mem) b (by simp [there])
  distinct := h.distinct.of_append.2.1

/-- What is owned from inside a block that is awaited. -/
theorem contents (h : m.Awaits m' [s] (.cons block size inside .nil))
    (apart : slots.Pairwise fun s t => Address.Apart s descriptorBytes t descriptorBytes)
    (within : ∀ t ∈ slots, t.region = .heap block) : m.Awaits m' slots inside where
  toKeeps := h.toKeeps.of_block (by simp) within fun b mem => by simp [mem]
  apart := apart
  outside := by
    intro t mem b there same
    rw [within t mem] at same
    cases same
    exact h.distinct.not_mem_inside there
  distinct := h.distinct.of_inside

end Memory.Awaits

/-- A live block is given back, and the log says so. -/
theorem Run.freeStorage_of_stores {M : Machine} {d : Descriptor} {block size : Nat}
    (stores : M.memory.Stores d block size) :
    Run.freeStorage d ⟨.heap block, 0⟩ M =
      .ok () ((M.recordAll d.freeEvents).withMemory (M.memory.release block)) := by
  obtain ⟨bytes, live, _⟩ := Option.map_eq_some_iff.mp stores.live
  have freed : Run.freeStorage d ⟨.heap block, 0⟩ M =
      .ok ()
        (((M.record (.log (.freeing size d.typeCode))).withMemory (M.memory.release block)).record
        (.freed block size)) := by
    unfold Run.freeStorage
    rw [stores.size]
    exact (Run.bind_of_ok (Run.log_apply ..)).trans (Run.freeBlock_of_live (by exact live))
  rw [freed, stores.freeEvents, ← List.singleton_append, Machine.recordAll_append,
    ← Machine.record_eq_recordAll, ← Machine.record_eq_recordAll]
  rfl

namespace TeardownStep

/-! ### One step -/

variable {env : Environment} {M : Machine} {m : Memory} {depth : Nat} {ty : DerivedType}
  {c : Component} {s : Address} {finalize : Bool} {d : Descriptor} {step : TeardownStep}
  {steps : List TeardownStep} {f g inside : Forest} {block size : Nat}

/-- If all code leaves memory alone, every step does. -/
theorem keepsMemory_of_inert (inert : env.Inert) (step : TeardownStep) : step.KeepsMemory env := by
  cases step with
  | finalizeScalar | finalizeArray => exact inert _ _
  | _ => trivial

/-- A descriptor that owns nothing is passed over. -/
theorem run_release_of_idle (room : M.memory.spans s descriptorBytes)
    (there : M.memory.descriptor? s = some d) (idle : d.isOwner = false) :
    (release ty c s finalize).run env depth M = .ok () M := by
  have vacant := (Memory.ownsStorage_of_descriptor? there).trans idle
  rw [TeardownStep.run, Run.bind_of_ok
    (Run.readOwner_of_not_owns (Memory.spans_of_le room (by decide)) vacant)]
  rfl

/-- A descriptor that owns a block is followed: its storage is torn down and given back, and the
    base is gone. -/
theorem run_release_of_owner (room : M.memory.spans s descriptorBytes)
    (there : M.memory.descriptor? s = some d) (stores : M.memory.Stores d block size) {m : Memory}
    {contents : List Event}
    (tornDown : (d.storageSteps env.context finalize).forM (run env depth)
        (M.recordAll (env.traceEvents (.release ty c))) =
      .ok () (((M.recordAll (env.traceEvents (.release ty c))).recordAll contents).withMemory m))
    (still : m.Stores d block size) (room' : (m.release block).spans s descriptorBytes) :
    (release ty c s finalize).run env (depth + 1) M =
      .ok () ((M.recordAll (env.traceEvents (.release ty c) ++ contents ++ d.freeEvents)).withMemory
        ((m.release block).clearBase s)) := by
  have owns := (Memory.ownsStorage_of_descriptor? there).trans stores.owner
  rw [stores.storageSteps] at tornDown
  rw [TeardownStep.run, Run.bind_of_ok (Run.readOwner_of_owns room owns there), stores.base]
  dsimp only [Option.map_some]
  rw [Run.bind_of_ok (Run.trace_apply ..), Descriptor.forArraySteps_eq, Run.bind_of_ok tornDown,
    Run.bind_of_ok (Run.freeStorage_of_stores (by exact still)),
    Run.clearBase_of_fits (Memory.spans_of_le (by exact room') (by decide)),
    Machine.recordAll_append, Machine.recordAll_append]
  rfl

/-! ### Steps one after the other -/

/-- Where a memory still awaits them, steps end well with the events that it tells. They tear down a
    forest and the descriptors that own it. -/
def TearsDown (env : Environment) (m : Memory) (depth : Nat) (steps : List TeardownStep)
    (f : Forest) : Prop :=
  ∀ M : Machine, m.Awaits M.memory (released steps) f →
    ∃ m', steps.forM (run env depth) M =
        .ok () ((M.recordAll (steps.flatMap (events env m depth))).withMemory m') ∧
      M.memory.TornDown m' f.numbers (m.owners (released steps))

namespace TearsDown

/-- No steps tear down nothing. -/
theorem nil : TearsDown env m depth [] .nil := fun M _ =>
  ⟨M.memory, by rw [List.flatMap_nil, Machine.recordAll_nil]; rfl, .refl _⟩

/-- Steps one after the other tear down one forest after the other. -/
theorem append {others : List TeardownStep} (h : TearsDown env m depth steps f)
    (h' : TearsDown env m depth others g) :
    TearsDown env m depth (steps ++ others) (f.append g) := by
  intro M awaits
  rw [released_append] at awaits ⊢
  obtain ⟨m₁, ran, torn⟩ := h M awaits.left
  obtain ⟨m₂, ran', torn'⟩ := h' ((M.recordAll (steps.flatMap (events env m depth))).withMemory m₁)
    (awaits.right (fun s mem => (List.mem_filter.mp mem).1) torn)
  refine ⟨m₂, ?_, ?_⟩
  · rw [List.forM_eq_forM, List.forM_append, List.flatMap_append, Machine.recordAll_append]
    exact (Run.bind_of_ok ran).trans ran'
  · rw [Forest.numbers_append, Memory.owners, List.filter_append]
    exact torn.trans torn'

/-- A single step that leaves memory as it is. -/
theorem of_idle (idle : m.owners (released [step]) = [])
    (ran : ∀ M : Machine, m.Awaits M.memory (released [step]) .nil →
      step.run env depth M = .ok () (M.recordAll (step.events env m depth))) :
    TearsDown env m depth [step] .nil := by
  intro M awaits
  rw [idle, List.flatMap_singleton]
  exact ⟨M.memory, Run.forM_cons_of_ok (ran M awaits), .refl _⟩

/-- A step that releases nothing tears down nothing. -/
theorem of_silent (inert : env.Inert) (resolved : step.Resolved) (silent : step.slot? = none) :
    TearsDown env m depth [step] .nil := by
  refine of_idle (congrArg m.owners (List.filterMap_cons_none silent)) fun M _ => ?_
  rw [events_of_silent silent]
  refine run_of_idle depth resolved (keepsMemory_of_inert inert step) fun s there => ?_
  rw [silent] at there
  cases there

/-- Nor does the release of a descriptor without storage. -/
theorem of_not_owner (room : m.spans s descriptorBytes) (there : m.descriptor? s = some d)
    (idle : d.isOwner = false) : TearsDown env m depth [release ty c s finalize] .nil := by
  refine of_idle (List.filter_cons_of_neg (by simp [Memory.ownsStorage_of_descriptor? there, idle]))
    fun M awaits => ?_
  have here := awaits.slots s List.mem_cons_self
  rw [events_of_not_owner there idle, Machine.recordAll_nil]
  exact run_release_of_idle (here.spans.trans room) ((here.descriptor? room).trans there) idle

/-- What a descriptor stores is torn down and given back, and no other memory changes but for its
    base. -/
theorem of_owner (room : m.spans s descriptorBytes) (there : m.descriptor? s = some d)
    (stores : m.Stores d block size)
    (apart : (released (d.storageSteps env.context finalize)).Pairwise fun s t =>
      Address.Apart s descriptorBytes t descriptorBytes)
    (within : ∀ t ∈ released (d.storageSteps env.context finalize), t.region = .heap block)
    (contents : TearsDown env m depth (d.storageSteps env.context finalize) inside) :
    TearsDown env m (depth + 1) [release ty c s finalize] (.cons block size inside .nil) := by
  intro M awaits
  have here := awaits.slots s List.mem_cons_self
  have room' : M.memory.spans s descriptorBytes := here.spans.trans room
  have same : M.memory.region? (.heap block) = m.region? (.heap block) :=
    awaits.blocks block (by simp)
  have storesHere : M.memory.Stores d block size :=
    { stores with live := by rw [same, stores.live] }
  obtain ⟨m₂, tornDown, torn⟩ :=
    contents (M.recordAll (env.traceEvents (.release ty c))) (awaits.contents apart within)
  -- The block is not among those that its contents own, so it is still there.
  have still : m₂.Stores d block size :=
    { stores with live := (torn.size (.heap block) fun b mem same => by
        cases same
        exact awaits.distinct.not_mem_inside mem).trans storesHere.live }
  have freed := torn.trans (.of_release m₂ block)
  have room₂ : (m₂.release block).spans s descriptorBytes := by
    rw [freed.spans fun b mem => awaits.outside s List.mem_cons_self b ?_]
    · exact room'
    · simpa [or_comm] using mem
  have owner : m.owners (released [release ty c s finalize]) = [s] :=
    List.filter_cons_of_pos (by rw [Memory.ownsStorage_of_descriptor? there, stores.owner])
  rw [owner, List.flatMap_singleton, events_of_owner there stores.owner]
  refine ⟨(m₂.release block).clearBase s, ?_,
    (freed.trans (.of_clearBase room₂)).congr (fun b => ?_) ?_ ?_⟩
  · exact Run.forM_cons_of_ok
      (run_release_of_owner room' ((here.descriptor? room).trans there) storesHere
        tornDown still room₂)
  · simp [or_comm]
  · simp
  · intro t mem
    simp only [List.append_nil, List.mem_append, List.mem_singleton] at mem
    refine mem.symm.imp (by simp) fun inContents => ⟨block, by simp, within t ?_⟩
    exact (List.mem_filter.mp inContents).1

end TearsDown

/-- Steps tear down what they find, if they may reach as deep as it goes. -/
theorem Finds.tearsDown (inert : env.Inert) {Q : Address → Prop} (h : Finds env.context m Q steps f)
    (deep : f.height ≤ depth) : TearsDown env m depth steps f := by
  induction h generalizing depth with
  | nil => exact .nil
  | silent resolved silent _ ih =>
    exact (TearsDown.of_silent inert resolved silent).append (ih deep)
  | idle _ room there idle _ ih => exact (TearsDown.of_not_owner room there idle).append (ih deep)
  | own _ room there stores apart within _ _ insideIh restIh =>
    obtain ⟨depth, rfl, deepInside, deepRest⟩ := Forest.exists_depth_of_height_le deep
    exact (TearsDown.of_owner room there stores apart within (insideIh deepInside)).append
      (restIh deepRest)

/-- Prepared steps end well, with the events that memory tells, and tear down what they find. No
    tree is deeper than memory has bytes, so the depth that a teardown may reach is enough. -/
theorem Prepared.exists_forM (inert : env.Inert) {Q : Address → Prop}
    (h : Prepared env.context M.memory Q steps f) :
    ∃ m', steps.forM (run env M.memory.byteCount) M =
        .ok () ((M.recordAll (steps.flatMap (events env M.memory M.memory.byteCount))).withMemory
          m') ∧
      M.memory.TornDown m' f.numbers (M.memory.owners (released steps)) :=
  h.finds.tearsDown inert h.height_le_byteCount M ⟨.refl .., h.apart, h.outside, h.distinct⟩

end TeardownStep

end DerivedTypes
