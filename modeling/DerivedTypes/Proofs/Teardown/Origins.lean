import DerivedTypes.Machine.Allocation
import DerivedTypes.Proofs.Machine.Records
import DerivedTypes.Proofs.Teardown.Levels

namespace DerivedTypes

/-!
# Where the steps of a teardown come from

Whatever the tables look like, each step of a teardown comes from one of them: a finalizer that is
called is a procedure of the type that the step names and has code there, and a descriptor that is
released is a component of this type. If the teardown does not finalize, no step calls a finalizer
or asks for it where it leads. The table is that of a type inside of the one that is torn down, so
it has all the properties that types hand on to those inside of them.

* `TeardownStep.Arises`: what a step owes to the table of its type;
* `TeardownStep.Own`, `DerivedType.HandedOn`: what a given type asks for, and a property that types
  hand on;
* `DerivedType.stepsAmong_scalarSteps`, `Descriptor.stepsAmong_arraySteps`: all steps of teardowns
  are those that types inside ask for. So they all arise (`DerivedType.arises_scalarSteps` and
  others);
* `TeardownStep.obeysAt_run_release`: a release obeys a law if the teardown of what is released
  does;
* `DerivedType.obeys_destroyScalar`, `Descriptor.obeys_deallocate` and others: a teardown obeys a
  law if the steps do that arise.
-/

/-- A step comes from the table of the type that it names, in a teardown that finalizes or does
    not. -/
inductive TeardownStep.Arises (context : ExecutionContext) (finalize : Bool) : TeardownStep → Prop
  | finalizeScalar {ty : DerivedType} {p : Procedure} {entry : EntryPoint} (asked : finalize = true)
      (mem : p ∈ ty.procedures) (role : p.isFinalizer) (code : p.code.entry? context = some entry)
      (a : Address) :
      Arises context finalize (.finalizeScalar ty p entry a)
  | finalizeArray {ty : DerivedType} {p : Procedure} {entry : EntryPoint} (asked : finalize = true)
      (mem : p ∈ ty.procedures) (role : p.isFinalizer) (code : p.code.entry? context = some entry)
      (view : Descriptor) : Arises context finalize (.finalizeArray ty p entry view)
  | enterComponents (ty : DerivedType) : Arises context finalize (.enterComponents ty)
  | release {ty : DerivedType} {c : Component} (mem : c ∈ ty.components)
      (slot : c.isDescriptor = true)
      (a : Address) {below : Bool} (le : below = true → finalize = true) :
      Arises context finalize (.release ty c (a + c.offset.toNat) below)
  | enterParent (ty parent : DerivedType) : Arises context finalize (.enterParent ty parent)
  | orphan (ty : DerivedType) (link : MissingLink) : Arises context finalize (.orphan ty link)

/-- A step that a type asks for by itself, in a teardown that finalizes or does not. -/
inductive TeardownStep.Own (context : ExecutionContext) (finalize : Bool) (ty : DerivedType) :
    TeardownStep → Prop
  | finalizeScalar {p : Procedure} {entry : EntryPoint} (asked : finalize = true)
      (mem : p ∈ ty.procedures)
      (role : p.isFinalizer) (code : p.code.entry? context = some entry) (a : Address) :
      Own context finalize ty (.finalizeScalar ty p entry a)
  | finalizeArray {p : Procedure} {entry : EntryPoint} (asked : finalize = true)
      (mem : p ∈ ty.procedures)
      (role : p.isFinalizer) (code : p.code.entry? context = some entry) (view : Descriptor) :
      Own context finalize ty (.finalizeArray ty p entry view)
  | enterComponents : Own context finalize ty (.enterComponents ty)
  | release {c : Component} (mem : c ∈ ty.components) (slot : c.isDescriptor = true)
      (a : Address) {below : Bool}
      (le : below = true → finalize = true) :
      Own context finalize ty (.release ty c (a + c.offset.toNat) below)
  | enterParent {parent : DerivedType} (named : ty.parent = .ok parent) :
      Own context finalize ty (.enterParent ty parent)
  | orphan (link : MissingLink) : Own context finalize ty (.orphan ty link)

open TeardownStep

namespace TeardownStep

variable {context : ExecutionContext} {finalize : Bool} {step : TeardownStep}

/-- What a type asks for comes from its table. -/
theorem Own.arises {ty : DerivedType} (h : step.Own context finalize ty) :
    step.Arises context finalize := by
  cases h with
  | finalizeScalar asked mem role code a => exact .finalizeScalar asked mem role code a
  | finalizeArray asked mem role code view => exact .finalizeArray asked mem role code view
  | enterComponents => exact .enterComponents ty
  | release mem slot a le => exact .release mem slot a le
  | enterParent => exact .enterParent ty _
  | orphan link => exact .orphan ty link

/-- What a type asks for where finalization may be forbidden, it also asks for where it is not. -/
theorem Own.mono {ty : DerivedType} {below : Bool} (h : step.Own context below ty)
    (le : below = true → finalize = true) : step.Own context finalize ty := by
  cases h with
  | finalizeScalar asked mem role code a => exact .finalizeScalar (le asked) mem role code a
  | finalizeArray asked mem role code view => exact .finalizeArray (le asked) mem role code view
  | enterComponents => exact .enterComponents
  | release mem slot a le' => exact .release mem slot a fun asked => le (le' asked)
  | enterParent named => exact .enterParent named
  | orphan link => exact .orphan link

end TeardownStep

/-- What arises where finalization may be forbidden also arises where it is not. -/
theorem TeardownStep.Arises.mono {context : ExecutionContext} {below finalize : Bool}
    {step : TeardownStep} (h : step.Arises context below) (le : below = true → finalize = true) :
    step.Arises context finalize := by
  cases h with
  | finalizeScalar asked mem role code a => exact .finalizeScalar (le asked) mem role code a
  | finalizeArray asked mem role code view => exact .finalizeArray (le asked) mem role code view
  | enterComponents ty => exact .enterComponents ty
  | release mem slot a le' => exact .release mem slot a fun asked => le (le' asked)
  | enterParent ty parent => exact .enterParent ty parent
  | orphan ty link => exact .orphan ty link

/-! ### Teardowns -/

namespace DerivedType

/-- A property of types that is handed on to all types that components name. -/
def HandedOn (P : DerivedType → Prop) : Prop :=
  ∀ ty c inner, P ty → c ∈ ty.components → c.derivedType? = some inner → P inner

variable {P : DerivedType → Prop}

/-- A property that is handed on reaches the parent type. -/
theorem HandedOn.parent (handed : HandedOn P) {ty parent : DerivedType} (among : P ty)
    (named : ty.parent = .ok parent) : P parent := by
  obtain ⟨c, first, inside⟩ := Option.bind_eq_some_iff.mp (parent_eq_ok_iff.mp named)
  exact handed ty c parent among (List.mem_of_mem_head? first) inside

/-- The steps are those that types with a property ask for. -/
def StepsAmong (P : DerivedType → Prop) (context : ExecutionContext) (finalize : Bool)
    (steps : List TeardownStep) :
    Prop :=
  ∀ step ∈ steps, ∃ ty, P ty ∧ step.Own context finalize ty

section

variable (handed : HandedOn P) (context : ExecutionContext)
include handed

mutual

/-- The steps for components are those that types inside ask for. -/
theorem stepsAmong_componentSteps {ty : DerivedType} (among : P ty) (a : Address)
    (finalize : Bool) :
    StepsAmong P context finalize (ty.componentSteps context a finalize) := by
  rw [componentSteps_eq]
  refine List.forall_mem_cons.mpr ⟨⟨ty, among, .enterComponents⟩,
    List.forall_mem_flatMap.mpr fun c mem => ?_⟩
  by_cases parent : c.isParent
  · rw [Component.teardownSteps_of_isParent parent]
    exact List.forall_mem_nil _
  · have own : c.isParent = false := by simpa using parent
    obtain slot | ⟨shape, nested, embedded⟩ | ⟨plain, none⟩ := c.parts_cases
    · rw [Component.teardownSteps_of_isDescriptor own slot]
      exact List.forall_mem_singleton.mpr ⟨ty, among, .release mem slot a id⟩
    · have := sizeOf_embedded mem embedded
      rw [Component.teardownSteps_of_embedded own embedded]
      intro step there
      -- A mark at the component may forbid what the teardown of the instance asks for.
      obtain ⟨inner, among', asks⟩ := stepsAmong_levelSteps
        (handed ty c nested among mem (Component.derivedType?_of_embedded? embedded))
          shape _ _ step there
      exact ⟨inner, among', asks.mono fun asked => (Bool.and_eq_true_iff.mp asked).1⟩
    · rw [Component.teardownSteps_of_plain plain none]
      exact List.forall_mem_nil _
termination_by 2 * sizeOf ty

/-- So are the steps for the levels of an array. -/
theorem stepsAmong_levelSteps {ty : DerivedType} (among : P ty) (d : Descriptor) (data : Address)
    (finalize : Bool) :
    StepsAmong P context finalize (ty.levelSteps context d data finalize) := by
  -- This level, and then the parent level.
  have here : StepsAmong P context finalize
      ((ty.arrayFinalizer d.rank.toNat finalize).wholeSteps context ty d data ++
      (d.elementAddresses data).flatMap fun e =>
        (ty.arrayFinalizer d.rank.toNat finalize).elementSteps context ty e ++
        ty.componentSteps context e finalize) := by
    refine List.forall_mem_append.mpr ⟨forall_mem_wholeSteps (fun asked p mem role entry code =>
      ⟨ty, among, .finalizeArray asked mem role code _⟩) _,
      List.forall_mem_flatMap.mpr fun e _ => ?_⟩
    exact List.forall_mem_append.mpr ⟨forall_mem_elementSteps (fun asked p mem role entry code =>
      ⟨ty, among, .finalizeScalar asked mem role code e⟩) _,
      stepsAmong_componentSteps among e finalize⟩
  cases extended : ty.isExtension with
  | false =>
    rw [levelSteps_of_not_extension extended]
    exact here
  | true =>
    cases named : ty.parent with
    | ok parent =>
      have := sizeOf_parent named
      rw [levelSteps_of_parent extended named]
      exact List.forall_mem_append.mpr ⟨here, List.forall_mem_cons.mpr
        ⟨⟨ty, among, .enterParent named⟩,
          stepsAmong_levelSteps (handed.parent among named) d data finalize⟩⟩
    | error link =>
      rw [levelSteps_of_orphan extended named]
      exact List.forall_mem_append.mpr
        ⟨here, List.forall_mem_singleton.mpr ⟨ty, among, .orphan link⟩⟩
termination_by 2 * sizeOf ty + 1

end

/-- So are the steps for an instance. -/
theorem stepsAmong_scalarSteps {ty : DerivedType} (among : P ty) (a : Address) (finalize : Bool) :
    StepsAmong P context finalize (ty.scalarSteps context a finalize) := by
  have here : StepsAmong P context finalize
      (ty.finalizeSteps context a finalize ++ ty.componentSteps context a finalize) :=
    List.forall_mem_append.mpr ⟨forall_mem_finalizeSteps fun asked p mem role entry code =>
      ⟨ty, among, .finalizeScalar asked mem role code a⟩,
      stepsAmong_componentSteps handed context among a finalize⟩
  cases extended : ty.isExtension with
  | false =>
    rw [scalarSteps_of_not_extension extended]
    exact here
  | true =>
    cases named : ty.parent with
    | ok parent =>
      have := sizeOf_parent named
      rw [scalarSteps_of_parent extended named]
      exact List.forall_mem_append.mpr ⟨here, List.forall_mem_cons.mpr
        ⟨⟨ty, among, .enterParent named⟩,
          stepsAmong_scalarSteps (handed.parent among named) a finalize⟩⟩
    | error link =>
      rw [scalarSteps_of_orphan extended named]
      exact List.forall_mem_append.mpr
        ⟨here, List.forall_mem_singleton.mpr ⟨ty, among, .orphan link⟩⟩
termination_by sizeOf ty

end

variable {context : ExecutionContext} {finalize : Bool}

/-- Steps among types with a property arise. -/
theorem StepsAmong.arises {steps : List TeardownStep} (h : StepsAmong P context finalize steps) :
    ∀ step ∈ steps, step.Arises context finalize := by
  intro step mem
  obtain ⟨_, _, own⟩ := h step mem
  exact own.arises

/-- Every type has the property that holds of all. -/
theorem handedOn_true : HandedOn fun _ => True := fun _ _ _ _ _ _ => trivial

/-- The steps for components arise. -/
theorem arises_componentSteps (context : ExecutionContext) (ty : DerivedType) (a : Address)
    (finalize : Bool) :
    ∀ step ∈ ty.componentSteps context a finalize, step.Arises context finalize :=
  (stepsAmong_componentSteps handedOn_true context trivial a finalize).arises

/-- The steps for an instance arise. -/
theorem arises_scalarSteps (context : ExecutionContext) (ty : DerivedType) (a : Address)
    (finalize : Bool) :
    ∀ step ∈ ty.scalarSteps context a finalize, step.Arises context finalize :=
  (stepsAmong_scalarSteps handedOn_true context trivial a finalize).arises

end DerivedType

namespace Descriptor

/-- The steps for described elements are those that types inside ask for, and a mark forbids
    finalization. -/
theorem stepsAmong_arraySteps {P : DerivedType → Prop} (handed : DerivedType.HandedOn P)
    (context : ExecutionContext) {d : Descriptor} (among : ∀ ty, d.derivedType? = some ty → P ty)
    (data : Address) (finalize : Bool) :
    DerivedType.StepsAmong P context (finalize && !d.isFinalizationSuppressed)
      (d.arraySteps context data finalize) := by
  rw [arraySteps]
  cases named : d.derivedType? with
  | none => exact List.forall_mem_nil _
  | some ty => exact DerivedType.stepsAmong_levelSteps handed context (among ty named) d data _

/-- The steps for described elements arise. -/
theorem arises_arraySteps (context : ExecutionContext) (d : Descriptor) (data : Address)
    (finalize : Bool) :
    ∀ step ∈ d.arraySteps context data finalize,
    step.Arises context (finalize && !d.isFinalizationSuppressed) :=
  (stepsAmong_arraySteps DerivedType.handedOn_true context (fun _ _ => trivial)
    data finalize).arises

end Descriptor

/-! ### Laws of releases -/

namespace TeardownStep

variable {env : Environment} {L : Run.Law} {ty : DerivedType} {c : Component} {s : Address}
  {finalize : Bool} {M : Machine} {depth : Nat}

/-- A release obeys a law that allows its events, if the teardown of the storage does that the
    descriptor owns. -/
theorem obeysAt_run_release (announced : L.Allows (.trace (.release ty c)))
    (logs : ∀ entry, L.Allows (.log entry)) (frees : ∀ block size, L.Allows (.freed block size))
    (contents : ∀ d data below, M.memory.descriptor? s = some d → below < depth →
      ((d.arraySteps env.context data finalize).forM (run env below)).Obeys L) :
    ((release ty c s finalize).run env depth).ObeysAt L M := by
  rw [TeardownStep.run]
  refine (Run.Obeys.readOwner s M).bind fun owner M' ended => ?_
  cases owner with
  | none => exact Run.Obeys.pure () M'
  | some found =>
    obtain ⟨d, data⟩ := found
    obtain ⟨rfl, found⟩ := Run.eq_of_readOwner ended
    have there := (found d data rfl).1
    have given : (do Run.freeStorage d data; Run.clearBase s : Run Unit).Obeys L :=
      (Run.Obeys.freeStorage d data logs frees).bind fun _ => .store _ _ _
    refine (Run.Obeys.trace env announced).bind (fun _ => ?_) M'
    cases depth with
    | zero => exact (Run.Obeys.undefined _).bind fun _ => given
    | succ depth =>
      dsimp only
      rw [d.forArraySteps_eq]
      exact (contents d data depth there (Nat.lt_succ_self depth)).bind fun _ => given

end TeardownStep

/-! ### Laws of teardowns -/

section

variable {env : Environment} {L : Run.Law} {finalize : Bool}

namespace DerivedType

variable
  (steps : ∀ step : TeardownStep, step.Arises env.context finalize → ∀ depth,
    (step.run env depth).Obeys L)
  (ty : DerivedType) (a : Address)
include steps

/-- The teardown of an instance obeys a law if the steps do that arise. -/
theorem obeys_destroyScalar : (ty.destroyScalar env a finalize).Obeys L := by
  rw [destroyScalar_eq]
  exact Run.Obeys.ownershipDepth.bind fun depth => .forM fun step mem =>
    steps step (ty.arises_scalarSteps env.context a finalize step mem) depth

/-- The teardown of components obeys a law if the steps do that arise. -/
theorem obeys_destroyComponents : (ty.destroyComponents env a finalize).Obeys L := by
  rw [destroyComponents_eq]
  exact Run.Obeys.ownershipDepth.bind fun depth => .forM fun step mem =>
    steps step (ty.arises_componentSteps env.context a finalize step mem) depth

end DerivedType

namespace Descriptor

variable {d : Descriptor} (steps : ∀ step : TeardownStep,
  step.Arises env.context (finalize && !d.isFinalizationSuppressed) → ∀ depth,
  (step.run env depth).Obeys L)
include steps

/-- The teardown of elements obeys a law if the steps do that arise. -/
theorem obeys_destroyElements (data : Option Address) :
    (d.destroyElements env data finalize).Obeys L := by
  cases data with
  | none => exact .pure ()
  | some data =>
    rw [destroyElements_eq]
    exact Run.Obeys.ownershipDepth.bind fun depth => .forM fun step mem =>
      steps step (d.arises_arraySteps env.context data finalize step mem) depth

/-- A deallocation obeys a law if the steps do that arise, and the law allows to free a block. -/
theorem obeys_deallocate (logs : ∀ entry, L.Allows (.log entry))
    (frees : ∀ block size, L.Allows (.freed block size)) :
    (d.deallocate env finalize).Obeys L := by
  unfold deallocate
  split
  · exact .pure _
  · split
    · exact .pure _
    · exact (obeys_destroyElements steps _).bind fun _ =>
        (Run.Obeys.freeStorage d _ logs frees).bind fun _ => .pure _

end Descriptor

end

end DerivedTypes
