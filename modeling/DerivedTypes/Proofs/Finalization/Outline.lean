import DerivedTypes.Proofs.Finalization.MarkedMemory

namespace DerivedTypes

/-!
# Teardowns without regard to finalization

The outline of a teardown leaves out the calls of finalizers and all marks. Which finalizers are
asked for, and which descriptors are marked, does not show in the outline of the steps
(`DerivedType.outline_scalarSteps`, `Descriptor.outline_arraySteps`). So it does not show in what
the steps find, nor in the outline of the events (`TeardownStep.FollowAlike`): steps with the same
outline are followed alike, one after the other (`FollowAlike.append`), in all memories that are
read alike (`Finds.followAlike`).
-/

/-- A trace without marks in its types. -/
def Trace.withoutMarks : Trace → Trace
  | init ty rule => .init ty.withoutMarks rule
  | finalize ty procedure => .finalize ty.withoutMarks procedure
  | destroyComponents ty => .destroyComponents ty.withoutMarks
  | release ty component => .release ty.withoutMarks component.withoutMarks
  | enterParent ty parent => .enterParent ty.withoutMarks parent.withoutMarks

/-- What an event of a teardown shows without regard to finalization: calls and their traces are
    left out, and so are marks. -/
def Event.outline? : Event → Option Event
  | call .. | trace (.finalize ..) => none
  | trace step => some (.trace step.withoutMarks)
  | event => some event

namespace TeardownStep

/-- A step without regard to finalization: calls are left out, and so are marks. -/
def outline? : TeardownStep → Option TeardownStep
  | finalizeScalar .. | finalizeArray .. => none
  | enterComponents ty => some (.enterComponents ty.withoutMarks)
  | release ty c s _ => some (.release ty.withoutMarks c.withoutMarks s false)
  | enterParent ty parent => some (.enterParent ty.withoutMarks parent.withoutMarks)
  | orphan ty link => some (.orphan ty.withoutMarks link)

/-- The outline of steps. -/
def outline (steps : List TeardownStep) : List TeardownStep := steps.filterMap outline?

/-- Outlines follow one another. -/
theorem outline_append (first second : List TeardownStep) :
    outline (first ++ second) = outline first ++ outline second :=
  List.filterMap_append

/-- The outline of steps for each item is that of the steps for each of them. -/
theorem outline_flatMap {α : Type} (items : List α) (steps : α → List TeardownStep) :
    outline (items.flatMap steps) = items.flatMap fun x => outline (steps x) :=
  List.filterMap_flatMap

/-- A step that is shown comes first in the outline. -/
theorem outline_cons_of_some {step shown : TeardownStep} (h : step.outline? = some shown)
    (rest : List TeardownStep) :
    outline (step :: rest) = shown :: outline rest :=
  List.filterMap_cons_some h

end TeardownStep

open TeardownStep

/-! ### Outlines of the steps -/

namespace ArrayFinalizer

variable (finalizer : ArrayFinalizer) (context : ExecutionContext) (ty : DerivedType)

/-- The call for a whole array is not shown. -/
theorem outline_wholeSteps (d : Descriptor) (data : Address) :
    outline (finalizer.wholeSteps context ty d data) = [] := by
  cases finalizer with
  | whole p =>
    rw [wholeSteps]
    cases p.code.entry? context <;> rfl
  | none | each => rfl

/-- The call for an element is not shown. -/
theorem outline_elementSteps (element : Address) :
    outline (finalizer.elementSteps context ty element) = [] := by
  cases finalizer with
  | each p =>
    rw [elementSteps]
    cases p.code.entry? context <;> rfl
  | none | whole => rfl

end ArrayFinalizer

namespace DerivedType

/-- The call for an instance is not shown. -/
theorem outline_finalizeSteps (context : ExecutionContext) (ty : DerivedType) (a : Address)
    (finalize : Bool) :
    outline (ty.finalizeSteps context a finalize) = [] := by
  rw [outline, List.filterMap_eq_nil_iff]
  exact forall_mem_finalizeSteps (Q := fun step => step.outline? = none) fun _ _ _ _ _ _ => rfl

mutual

/-- Finalizers and marks do not show in the outline of the steps for components. -/
theorem outline_componentSteps (context : ExecutionContext) (ty : DerivedType) (a : Address)
    (finalize : Bool) :
    outline (ty.componentSteps context a finalize) =
    ty.withoutMarks.componentSteps context a false := by
  have each : ∀ c ∈ ty.components, outline (c.teardownSteps context ty a finalize) =
      c.withoutMarks.teardownSteps context ty.withoutMarks a false := by
    intro c mem
    by_cases parent : c.isParent
    · rw [Component.teardownSteps_of_isParent parent,
        Component.teardownSteps_of_isParent (by simpa using parent)]
      rfl
    · have own : c.isParent = false := by simpa using parent
      have own' : c.withoutMarks.isParent = false := by simpa using parent
      obtain slot | ⟨shape, nested, embedded⟩ | ⟨plain, none⟩ := c.parts_cases
      · rw [Component.teardownSteps_of_isDescriptor own slot,
          Component.teardownSteps_of_isDescriptor own' (by simpa using slot),
          Component.offset_withoutMarks]
        rfl
      · have := sizeOf_embedded mem embedded
        have embedded' : c.withoutMarks.embedded? =
            some (shape.withoutMarks, nested.withoutMarks) := by
          rw [Component.embedded?_withoutMarks, embedded, Option.map_some]
        rw [Component.teardownSteps_of_embedded own embedded,
          Component.teardownSteps_of_embedded own' embedded',
          outline_levelSteps context nested, Component.offset_withoutMarks, Bool.false_and]
      · rw [Component.teardownSteps_of_plain plain none,
          Component.teardownSteps_of_plain (by simpa using plain)
          (by rw [Component.embedded?_withoutMarks, none, Option.map_none])]
        rfl
  rw [componentSteps_eq, componentSteps_eq, outline_cons_of_some rfl, outline_flatMap,
    components_withoutMarks, List.flatMap_map]
  congr 1
  exact List.flatMap_congr each
termination_by 2 * sizeOf ty

/-- Finalizers and marks do not show in the outline of the steps for the levels of an array. -/
theorem outline_levelSteps (context : ExecutionContext) (ty : DerivedType) (d : Descriptor)
    (data : Address) (finalize : Bool) :
    outline (ty.levelSteps context d data finalize) =
      ty.withoutMarks.levelSteps context d.withoutMarks data false := by
  -- This level: the calls are left out.
  have here : outline ((ty.arrayFinalizer d.rank.toNat finalize).wholeSteps context ty d data ++
      (d.elementAddresses data).flatMap fun e =>
        (ty.arrayFinalizer d.rank.toNat finalize).elementSteps context ty e ++
        ty.componentSteps context e finalize) =
      (d.elementAddresses data).flatMap fun e =>
        ty.withoutMarks.componentSteps context e false := by
    rw [outline_append, ArrayFinalizer.outline_wholeSteps, List.nil_append, outline_flatMap]
    refine List.flatMap_congr fun e _ => ?_
    rw [outline_append, ArrayFinalizer.outline_elementSteps, List.nil_append,
      outline_componentSteps context ty]
  have there : (ty.withoutMarks.arrayFinalizer d.withoutMarks.rank.toNat false).wholeSteps
        context ty.withoutMarks
        d.withoutMarks data ++
      (d.withoutMarks.elementAddresses data).flatMap (fun e =>
        (ty.withoutMarks.arrayFinalizer d.withoutMarks.rank.toNat false).elementSteps context
          ty.withoutMarks e ++
          ty.withoutMarks.componentSteps context e false) =
      (d.elementAddresses data).flatMap fun e =>
        ty.withoutMarks.componentSteps context e false := by
    rw [Descriptor.elementAddresses_withoutMarks]
    rfl
  cases extended : ty.isExtension with
  | false =>
    rw [levelSteps_of_not_extension extended, levelSteps_of_not_extension (by simpa using extended),
      here, there]
  | true =>
    have extended' : ty.withoutMarks.isExtension = true := by simpa using extended
    cases named : ty.parent with
    | ok parent =>
      have := sizeOf_parent named
      have named' : ty.withoutMarks.parent = .ok parent.withoutMarks := by
        rw [parent_withoutMarks, named]
        rfl
      rw [levelSteps_of_parent extended named, levelSteps_of_parent extended' named',
        outline_append, here, there, outline_cons_of_some rfl, outline_levelSteps context parent]
    | error link =>
      have missing : ty.withoutMarks.parent = .error link := by
        rw [parent_withoutMarks, named]
        rfl
      rw [levelSteps_of_orphan extended named, levelSteps_of_orphan extended' missing,
        outline_append, here, there]
      rfl
termination_by 2 * sizeOf ty + 1

end

/-- Finalizers and marks do not show in the outline of the steps for an instance. -/
theorem outline_scalarSteps (context : ExecutionContext) (ty : DerivedType) (a : Address)
    (finalize : Bool) :
    outline (ty.scalarSteps context a finalize) = ty.withoutMarks.scalarSteps context a false := by
  have here :
      outline (ty.finalizeSteps context a finalize ++ ty.componentSteps context a finalize) =
      ty.withoutMarks.finalizeSteps context a false ++ ty.withoutMarks.componentSteps
        context a false := by
    rw [outline_append, outline_finalizeSteps, outline_componentSteps]
    rfl
  cases extended : ty.isExtension with
  | false =>
    rw [scalarSteps_of_not_extension extended,
      scalarSteps_of_not_extension (by simpa using extended), here]
  | true =>
    have extended' : ty.withoutMarks.isExtension = true := by simpa using extended
    cases named : ty.parent with
    | ok parent =>
      have := sizeOf_parent named
      have named' : ty.withoutMarks.parent = .ok parent.withoutMarks := by
        rw [parent_withoutMarks, named]
        rfl
      rw [scalarSteps_of_parent extended named, scalarSteps_of_parent extended' named',
        outline_append, here, outline_cons_of_some rfl, outline_scalarSteps context parent]
    | error link =>
      have missing : ty.withoutMarks.parent = .error link := by
        rw [parent_withoutMarks, named]
        rfl
      rw [scalarSteps_of_orphan extended named, scalarSteps_of_orphan extended' missing,
        outline_append, here]
      rfl
termination_by sizeOf ty

end DerivedType

namespace Descriptor

/-- Finalizers and marks do not show in the outline of the steps for described elements. -/
theorem outline_arraySteps (context : ExecutionContext) (d : Descriptor) (data : Address)
    (finalize : Bool) :
    outline (d.arraySteps context data finalize) =
    d.withoutMarks.arraySteps context data false := by
  rw [arraySteps, arraySteps, derivedType?_withoutMarks]
  cases d.derivedType? with
  | none => rfl
  | some ty => exact ty.outline_levelSteps context d data _

/-- Finalizers and marks do not show in the outline of the steps for the storage of a descriptor. -/
theorem outline_storageSteps (context : ExecutionContext) (d : Descriptor) (finalize : Bool) :
    outline (d.storageSteps context finalize) = d.withoutMarks.storageSteps context false := by
  rw [storageSteps, storageSteps, base_withoutMarks]
  cases d.base with
  | none => rfl
  | some data => exact d.outline_arraySteps context data finalize

end Descriptor

/-! ### Outlines of what steps find and do -/

/-- Traces show without marks, except those of calls. -/
theorem Environment.outline_traceEvents (env : Environment) {step shown : Trace}
    (h : (Event.trace step).outline? = some (.trace shown)) :
    (env.traceEvents step).filterMap Event.outline? = env.traceEvents shown := by
  unfold traceEvents
  by_cases traced : env.traces
  · rw [if_pos traced, if_pos traced, List.filterMap_cons_some h, List.filterMap_nil]
  · rw [if_neg traced, if_neg traced, List.filterMap_nil]

/-- Calls and their traces do not show. -/
theorem Environment.outline_callEvents (env : Environment) (ty : DerivedType) (p : Procedure)
    (argument : Argument) :
    (env.traceEvents (.finalize ty p) ++ [Event.call p env.context argument]).filterMap
      Event.outline? = [] := by
  unfold traceEvents
  split <;> rfl

/-- The events of giving back a block do not depend on marks. -/
theorem Descriptor.freeEvents_withoutMarks (d : Descriptor) :
    d.withoutMarks.freeEvents = d.freeEvents := by
  simp [freeEvents]

/-- The events of giving back a block are all there is to see of it. -/
theorem Descriptor.outline_freeEvents (d : Descriptor) :
    d.freeEvents.filterMap Event.outline? = d.freeEvents := by
  unfold freeEvents
  split <;> rfl

namespace Memory.Stores

variable {m m' : Memory} {d d' : Descriptor} {block size : Nat}

/-- A descriptor that differs in marks owns the same block. -/
theorem of_withoutMarks_eq (h : m.Stores d block size) (same : d'.withoutMarks = d.withoutMarks)
    (sizes : ∀ region, (m'.region? region).map (·.size) = (m.region? region).map (·.size)) :
    m'.Stores d' block size where
  owner := by rw [← d'.isOwner_withoutMarks, same, d.isOwner_withoutMarks, h.owner]
  base := by rw [← d'.base_withoutMarks, same, d.base_withoutMarks, h.base]
  live := (sizes _).trans h.live
  size := by rw [← d'.blockSize?_withoutMarks, same, d.blockSize?_withoutMarks, h.size]

end Memory.Stores

namespace TeardownStep

variable {env : Environment} {m m' : Memory} {step step' shown : TeardownStep}
  {steps steps' rest rest' : List TeardownStep} {f : Forest}

/-- What is shown of a step has the same descriptor. -/
theorem slot?_eq_of_outline? (h : step.outline? = some shown) : step.slot? = shown.slot? := by
  cases step <;> cases h <;> rfl

/-- What is not shown releases nothing. -/
theorem slot?_of_outline?_eq_none (h : step.outline? = none) : step.slot? = none := by
  cases step with
  | release => cases h
  | _ => rfl

/-- What is shown of a step is resolved just as the step is. -/
theorem resolved_iff_of_outline? (h : step.outline? = some shown) :
    step.Resolved ↔ shown.Resolved := by
  cases step <;> cases h <;> exact .rfl

/-- What is not shown gives up nowhere. -/
theorem resolved_of_outline?_eq_none (h : step.outline? = none) : step.Resolved := by
  cases step with
  | orphan => cases h
  | _ => trivial

/-- What shows as the release of a descriptor is one. -/
theorem exists_release_of_outline? {ty : DerivedType} {c : Component} {s : Address}
    (h : step.outline? = some (release ty c s false)) :
    ∃ ty' c' finalize, step = release ty' c' s finalize ∧ ty'.withoutMarks = ty ∧
    c'.withoutMarks = c := by
  cases step with
  | release ty' c' t finalize =>
    cases h
    exact ⟨ty', c', finalize, rfl, rfl, rfl⟩
  | _ => cases h

/-- Steps with the same outline release the same descriptors. -/
theorem released_eq_of_outline_eq (same : outline steps' = outline steps) :
    released steps' = released steps := by
  have shown (steps : List TeardownStep) : released (outline steps) = released steps := by
    rw [released, outline, List.filterMap_filterMap]
    refine List.filterMap_congr fun step _ => ?_
    cases step <;> rfl
  rw [← shown steps', same, shown steps]

/-- The outline of what a step leaves that releases nothing is what its outline leaves. -/
theorem outline_idleEvents (env : Environment) (step : TeardownStep) :
    (step.idleEvents env).filterMap Event.outline? = step.outline?.toList.flatMap
      (·.idleEvents env) := by
  cases step with
  | finalizeScalar ty p _ a => exact env.outline_callEvents ty p _
  | finalizeArray ty p _ view => exact env.outline_callEvents ty p _
  | enterComponents | enterParent =>
    rw [idleEvents, env.outline_traceEvents rfl]
    exact (List.flatMap_singleton ..).symm
  | release | orphan => rfl

/-- The outline of a release that finds an owner. -/
theorem outline_events_of_owner {ty : DerivedType} {c : Component} {s : Address} {finalize : Bool}
    {d : Descriptor} (there : m.descriptor? s = some d) (owner : d.isOwner = true) (depth : Nat) :
    ((release ty c s finalize).events env m (depth + 1)).filterMap Event.outline? =
      env.traceEvents (.release ty.withoutMarks c.withoutMarks) ++
      ((d.storageSteps env.context finalize).flatMap (events env m depth)).filterMap
        Event.outline? ++
      d.freeEvents := by
  rw [events_of_owner there owner, List.filterMap_append, List.filterMap_append,
    env.outline_traceEvents rfl, d.outline_freeEvents]
  rfl

/-- Steps in two memories find the same forest, and the outlines of what they leave are the same. -/
structure FollowAlike (env : Environment) (m m' : Memory) (steps steps' : List TeardownStep)
    (f : Forest) :
    Prop where
  finds : Finds env.context m' (fun _ => True) steps' f
  outline : ∀ {depth depth' : Nat}, f.height ≤ depth → f.height ≤ depth' →
    (steps'.flatMap (events env m' depth')).filterMap Event.outline? =
      (steps.flatMap (events env m depth)).filterMap Event.outline?

/-- What is not shown leaves nothing in the outline of the events. -/
theorem outline_events_of_outline?_eq_none (h : step.outline? = none) (depth : Nat) :
    (step.events env m depth).filterMap Event.outline? = [] := by
  rw [events_of_silent (slot?_of_outline?_eq_none h), outline_idleEvents, h]
  rfl

namespace FollowAlike

/-- No steps are followed alike. -/
theorem nil :
    FollowAlike env m m' [] [] .nil := ⟨.nil, fun _ _ => by rw [List.flatMap_nil, List.flatMap_nil]⟩

/-- Steps that are followed alike can be put together. -/
theorem append {g : Forest} (h : FollowAlike env m m' steps steps' f)
    (h' : FollowAlike env m m' rest rest' g) :
    FollowAlike env m m' (steps ++ rest) (steps' ++ rest') (f.append g) where
  finds := h.finds.append h'.finds
  outline := by
    intro depth depth' deep deep'
    rw [Forest.height_append, Nat.max_le] at deep deep'
    rw [List.flatMap_append, List.flatMap_append, List.filterMap_append, List.filterMap_append,
      h.outline deep.1 deep'.1, h'.outline deep.2 deep'.2]

/-- A single step has the events of another one. -/
theorem of_step (finds : Finds env.context m' (fun _ => True) [step'] f)
    (outline : ∀ {depth depth' : Nat}, f.height ≤ depth → f.height ≤ depth' →
      (step'.events env m' depth').filterMap Event.outline? =
      (step.events env m depth).filterMap Event.outline?) :
    FollowAlike env m m' [step] [step'] f where
  finds := finds
  outline := fun deep deep' => by
    rw [List.flatMap_singleton, List.flatMap_singleton, outline deep deep']

/-- A call on the first side is not seen. -/
theorem cons_call (h : FollowAlike env m m' steps steps' f) (call : step.outline? = none) :
    FollowAlike env m m' (step :: steps) steps' f where
  finds := h.finds
  outline := by
    intro depth depth' deep deep'
    rw [h.outline deep deep', List.flatMap_cons, List.filterMap_append,
      outline_events_of_outline?_eq_none call, List.nil_append]

/-- Nor is a call on the second side. -/
theorem cons_call' (h : FollowAlike env m m' steps steps' f) (call : step'.outline? = none) :
    FollowAlike env m m' steps (step' :: steps') f where
  finds := .silent (resolved_of_outline?_eq_none call) (slot?_of_outline?_eq_none call) h.finds
  outline := by
    intro depth depth' deep deep'
    rw [← h.outline deep deep', List.flatMap_cons, List.filterMap_append,
      outline_events_of_outline?_eq_none call, List.nil_append]

/-- Calls in front do not show. -/
theorem calls_append {calls : List TeardownStep} (unseen : ∀ call ∈ calls, call.outline? = none)
    (h : FollowAlike env m m' steps steps' f) : FollowAlike env m m' steps (calls ++ steps') f := by
  induction calls with
  | nil => exact h
  | cons call calls ih =>
    exact (ih fun step mem => unseen step (List.mem_cons_of_mem _ mem)).cons_call'
      (unseen call List.mem_cons_self)

/-- The first step that shows comes behind calls. -/
theorem of_outline_eq_cons {shownRest : List TeardownStep}
    (h : TeardownStep.outline steps' = shown :: shownRest)
    (follow : ∀ step' rest', step'.outline? = some shown → TeardownStep.outline rest' = shownRest →
      FollowAlike env m m' steps (step' :: rest') f) : FollowAlike env m m' steps steps' f := by
  obtain ⟨calls, step', rest', rfl, unseen, seen, others⟩ := List.filterMap_eq_cons_iff.mp h
  exact (follow step' rest' seen others).calls_append unseen

/-- Steps that release nothing and show alike. -/
theorem of_silent (seen : step.outline? = some shown) (seen' : step'.outline? = some shown)
    (resolved : step.Resolved) (silent : step.slot? = none) :
    FollowAlike env m m' [step] [step'] .nil := by
  have silent' : step'.slot? = none := by
    rw [slot?_eq_of_outline? seen', ← slot?_eq_of_outline? seen, silent]
  have resolved' :=
    (resolved_iff_of_outline? seen').mpr ((resolved_iff_of_outline? seen).mp resolved)
  refine of_step (.silent resolved' silent' .nil) fun _ _ => ?_
  rw [events_of_silent silent', events_of_silent silent, outline_idleEvents,
    outline_idleEvents, seen', seen]

section

variable {ty ty' : DerivedType} {c c' : Component} {s : Address} {finalize finalize' : Bool}
  {d d' : Descriptor}

/-- Releases that find nothing to release. -/
theorem of_not_owner (room' : m'.spans s descriptorBytes) (there : m.descriptor? s = some d)
    (there' : m'.descriptor? s = some d') (idle : d.isOwner = false) (idle' : d'.isOwner = false) :
    FollowAlike env m m' [release ty c s finalize] [release ty' c' s finalize'] .nil := by
  refine of_step (.idle trivial room' there' idle' .nil) fun _ _ => ?_
  rw [events_of_not_owner there' idle', events_of_not_owner there idle]

/-- Releases of descriptors that differ in marks, if their storage is followed alike. -/
theorem of_owner {block size : Nat} {inside : Forest} (room' : m'.spans s descriptorBytes)
    (there : m.descriptor? s = some d) (there' : m'.descriptor? s = some d')
    (sameMarks : d'.withoutMarks = d.withoutMarks) (sameType : ty'.withoutMarks = ty.withoutMarks)
    (sameComponent : c'.withoutMarks = c.withoutMarks)
    (stores : m.Stores d block size) (stores' : m'.Stores d' block size)
    (apart : (released (d'.storageSteps env.context finalize')).Pairwise fun s t =>
      Address.Apart s descriptorBytes t descriptorBytes)
    (within : ∀ t ∈ released (d'.storageSteps env.context finalize'), t.region = .heap block)
    (contents : FollowAlike env m m' (d.storageSteps env.context finalize)
      (d'.storageSteps env.context finalize') inside) :
    FollowAlike env m m' [release ty c s finalize] [release ty' c' s finalize']
      (.cons block size inside .nil) := by
  refine of_step (.own trivial room' there' stores' apart within contents.finds .nil)
    fun deep deep' => ?_
  obtain ⟨depth, rfl, deepInside, _⟩ := Forest.exists_depth_of_height_le deep
  obtain ⟨depth', rfl, deepInside', _⟩ := Forest.exists_depth_of_height_le deep'
  have freed : d'.freeEvents = d.freeEvents := by
    rw [← d'.freeEvents_withoutMarks, sameMarks, d.freeEvents_withoutMarks]
  rw [outline_events_of_owner there' stores'.owner, outline_events_of_owner there stores.owner,
    contents.outline deepInside deepInside', freed, sameType, sameComponent]

end

end FollowAlike

/-- Memories that are read alike are followed alike, by all steps with the same outline. -/
theorem Finds.followAlike {Q : Address → Prop} (h : Finds env.context m Q steps f)
    (sizes : ∀ region, (m'.region? region).map (·.size) = (m.region? region).map (·.size))
    (alike : ∀ s, Q s → m.spans s descriptorBytes → m.ReadsAlike m' s)
    (same : outline steps' = outline steps) :
    FollowAlike env m m' steps steps' f := by
  have spans {s : Address} (room : m.spans s descriptorBytes) : m'.spans s descriptorBytes :=
    (Memory.spans_of_size (sizes s.region) _).trans room
  induction h generalizing steps' with
  | nil =>
    -- Nothing but calls.
    rw [← List.append_nil steps']
    exact .calls_append (List.filterMap_eq_nil_iff.mp same) .nil
  | @silent step rest f resolved silent others ih =>
    cases seen : step.outline? with
    | none => exact (ih (same.trans (List.filterMap_cons_none seen))).cons_call seen
    | some shown =>
      refine .of_outline_eq_cons (same.trans (outline_cons_of_some seen rest))
        fun step' rest' seen' same' => ?_
      exact (FollowAlike.of_silent seen seen' resolved silent).append (ih same')
  | @idle ty c s finalize d rest f fine room there idle others ih =>
    refine .of_outline_eq_cons (same.trans (outline_cons_of_some rfl rest))
      fun step' rest' seen' same' => ?_
    obtain ⟨ty', c', finalize', rfl, _, _⟩ := exists_release_of_outline? seen'
    obtain ⟨d', there', sameMarks⟩ := alike s fine room d there
    have idle' : d'.isOwner = false := by
      rw [← d'.isOwner_withoutMarks, sameMarks, d.isOwner_withoutMarks, idle]
    exact (FollowAlike.of_not_owner (spans room) there there' idle idle').append (ih same')
  | @own ty c s finalize d block size rest inside f fine room there stores apart within
      contents others insideIh
      restIh =>
    refine .of_outline_eq_cons (same.trans (outline_cons_of_some rfl rest))
      fun step' rest' seen' same' => ?_
    obtain ⟨ty', c', finalize', rfl, sameType, sameComponent⟩ := exists_release_of_outline? seen'
    obtain ⟨d', there', sameMarks⟩ := alike s fine room d there
    -- The storage of the two descriptors is followed alike.
    have sameInside : outline (d'.storageSteps env.context finalize') =
        outline (d.storageSteps env.context finalize) := by
      rw [Descriptor.outline_storageSteps, Descriptor.outline_storageSteps, sameMarks]
    have sameReleased := released_eq_of_outline_eq sameInside
    exact (FollowAlike.of_owner (spans room) there there' sameMarks sameType sameComponent stores
      (stores.of_withoutMarks_eq sameMarks sizes) (sameReleased ▸ apart) (sameReleased ▸ within)
      (insideIh sameInside)).append (restIh same')

/-- What steps release has a descriptor, at an address with the property that the steps ask for. -/
theorem Finds.exists_descriptor {context : ExecutionContext} {Q : Address → Prop}
    (h : Finds context m Q steps f) {s : Address} (mem : s ∈ released steps) :
    Q s ∧ m.spans s descriptorBytes ∧ ∃ d, m.descriptor? s = some d := by
  induction h with
  | nil => cases mem
  | silent _ silent _ ih =>
    rw [released, List.filterMap_cons_none silent] at mem
    exact ih mem
  | idle fine room there _ _ ih =>
    rcases List.mem_cons.mp mem with rfl | mem
    · exact ⟨fine, room, _, there⟩
    · exact ih mem
  | own fine room there _ _ _ _ _ _ ih =>
    rcases List.mem_cons.mp mem with rfl | mem
    · exact ⟨fine, room, _, there⟩
    · exact ih mem

/-- Memories that are read alike are prepared alike, for all steps with the same outline. -/
theorem Prepared.followAlike {Q : Address → Prop} (h : Prepared env.context m Q steps f)
    (sizes : ∀ region, (m'.region? region).map (·.size) = (m.region? region).map (·.size))
    (alike : ∀ s, Q s → m.spans s descriptorBytes → m.ReadsAlike m' s)
    (same : outline steps' = outline steps) :
    Prepared env.context m' (fun _ => True) steps' f ∧
      (steps'.flatMap (events env m' m'.byteCount)).filterMap Event.outline? =
        (steps.flatMap (events env m m.byteCount)).filterMap Event.outline? ∧
      m'.owners (released steps') = m.owners (released steps) := by
  have following := h.finds.followAlike sizes alike same
  have sameReleased := released_eq_of_outline_eq same
  have prepared : Prepared env.context m' (fun _ => True) steps' f :=
    ⟨following.finds, sameReleased ▸ h.apart, sameReleased ▸ h.outside, h.distinct⟩
  refine ⟨prepared, following.outline h.height_le_byteCount prepared.height_le_byteCount, ?_⟩
  rw [sameReleased]
  refine List.filter_congr fun s mem => ?_
  obtain ⟨fine, room, d, there⟩ := h.finds.exists_descriptor mem
  obtain ⟨d', there', sameMarks⟩ := alike s fine room d there
  rw [Memory.ownsStorage_of_descriptor? there', Memory.ownsStorage_of_descriptor? there,
    ← d'.isOwner_withoutMarks, sameMarks, d.isOwner_withoutMarks]

end TeardownStep

end DerivedTypes
