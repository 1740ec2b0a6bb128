import DerivedTypes.Machine.Teardown
import DerivedTypes.Proofs.Machine.Outcome
import DerivedTypes.Proofs.Ownership.Releases

namespace DerivedTypes

/-!
# Teardowns with nothing to release

Only a release looks into memory. So where no descriptor owns storage, everything that a teardown
does is known from the tables: it calls finalizers, as long as these keep memory as it is, and
leaves traces of its way.

* `TeardownStep.forM_of_idle`: steps leave their `idleEvents` and nothing else;
* `DerivedType.destroyScalar_of_idle`, `DerivedType.destroyComponents_of_idle`: so do teardowns of
  instances;
* `DerivedType.exists_destroyScalar_false`, `DerivedType.exists_destroyComponents_false`: without
  finalization there are only traces of the way.
-/

/-- A descriptor lies at an address, but owns no storage. -/
structure Memory.Vacant (m : Memory) (s : Address) : Prop where
  spans : m.spans s ownershipBytes
  idle : m.ownsStorage s = false

/-- A descriptor that can be read, but owns nothing, is vacant. -/
theorem Memory.Vacant.of_spans {m : Memory} {s : Address} (room : m.spans s descriptorBytes)
    (idle : m.ownsStorage s = false) : m.Vacant s where
  spans := spans_of_le room (by decide)
  idle := idle

/-- The event is the trace of a way into the components of an instance or to its parent type. -/
def Event.isEntering : Event → Bool
  | trace (.destroyComponents _) | trace (.enterParent ..) => true
  | _ => false

namespace TeardownStep

/-- The events of a step that releases nothing. -/
def idleEvents (env : Environment) : TeardownStep → List Event
  | finalizeScalar ty p _ a => env.traceEvents (.finalize ty p) ++ [.call p env.context (.scalar a)]
  | finalizeArray ty p _ view =>
    env.traceEvents (.finalize ty p) ++ [.call p env.context (.array view)]
  | enterComponents ty => env.traceEvents (.destroyComponents ty)
  | enterParent ty parent => env.traceEvents (.enterParent ty parent)
  | release .. | orphan .. => []

/-- The procedure that a step calls, if it calls one, leaves memory as it is. -/
def KeepsMemory (env : Environment) : TeardownStep → Prop
  | finalizeScalar _ _ entry a => ∀ m, (env.code entry (.scalar a) m).2 = m
  | finalizeArray _ _ entry view => ∀ m, (env.code entry (.array view) m).2 = m
  | _ => True

variable {env : Environment} {step : TeardownStep} {steps : List TeardownStep} {M : Machine}

/-- What a step does where it finds nothing to release. -/
theorem run_of_idle (depth : Nat) (resolved : step.Resolved) (keeps : step.KeepsMemory env)
    (idle : ∀ s, step.slot? = some s → M.memory.Vacant s) :
    step.run env depth M = .ok () (M.recordAll (step.idleEvents env)) := by
  -- A call of a procedure that keeps memory is an event.
  have called {p : Procedure} {entry : EntryPoint} {argument : Argument} {N : Machine}
      (kept : (env.code entry argument N.memory).2 = N.memory) :
      (do let _ ← Run.call env p entry argument : Run Unit) N =
        .ok () (N.recordAll [.call p env.context argument]) := by
    rw [Run.bind_of_ok (Run.call_apply ..), kept, ← Machine.record_eq_recordAll]
    rfl
  cases step with
  | finalizeScalar ty p entry a | finalizeArray ty p entry view =>
    rw [TeardownStep.run, Run.bind_of_ok (Run.trace_apply ..), called (keeps _), idleEvents,
      Machine.recordAll_append]
  | enterComponents ty | enterParent ty parent =>
    rw [TeardownStep.run]
    exact Run.trace_apply ..
  | orphan ty link => exact False.elim resolved
  | release ty c s finalize =>
    obtain ⟨room, vacant⟩ := idle s rfl
    rw [TeardownStep.run, Run.bind_of_ok (Run.readOwner_of_not_owns room vacant), idleEvents,
      Machine.recordAll_nil]
    rfl

/-- Steps that find nothing to release leave their events, one after the other, and nothing else. -/
theorem forM_of_idle (depth : Nat) (resolved : ∀ step ∈ steps, step.Resolved)
    (keeps : ∀ step ∈ steps, step.KeepsMemory env) (idle : ∀ s ∈ released steps,
      M.memory.Vacant s) :
    steps.forM (run env depth) M = .ok () (M.recordAll (steps.flatMap (·.idleEvents env))) := by
  rw [List.forM_eq_forM]
  induction steps generalizing M with
  | nil =>
    rw [List.flatMap_nil, Machine.recordAll_nil]
    rfl
  | cons step rest ih =>
    have first :=
      run_of_idle (M := M) depth (resolved step List.mem_cons_self) (keeps step List.mem_cons_self)
      fun s slot => idle s (List.mem_filterMap.mpr ⟨step, List.mem_cons_self, slot⟩)
    -- Events change no memory, so the rest finds nothing to release either.
    have vacant : ∀ s ∈ released rest, (M.recordAll (step.idleEvents env)).memory.Vacant s := by
      intro s mem
      obtain ⟨step', there, slot⟩ := List.mem_filterMap.mp mem
      exact idle s (List.mem_filterMap.mpr ⟨step', List.mem_cons_of_mem _ there, slot⟩)
    rw [Run.forM_cons_of_ok first, List.flatMap_cons, Machine.recordAll_append]
    exact ih (fun step mem => resolved step (List.mem_cons_of_mem _ mem))
      (fun step mem => keeps step (List.mem_cons_of_mem _ mem)) vacant

/-- The calls of steps that find nothing to release. -/
theorem filterMap_call?_idleEvents (env : Environment) (steps : List TeardownStep) :
    (steps.flatMap (·.idleEvents env)).filterMap Event.call? = steps.filterMap call? := by
  have each (step : TeardownStep) : (step.idleEvents env).filterMap Event.call? =
      step.call?.toList := by
    cases step <;> simp [idleEvents, call?, Event.call?]
  rw [List.filterMap_flatMap, List.filterMap_eq_flatMap_toList]
  simp only [each]

/-- Steps that find nothing to release leave the heap alone. -/
theorem filterMap_heapUse?_idleEvents (env : Environment) (steps : List TeardownStep) :
    (steps.flatMap (·.idleEvents env)).filterMap Event.heapUse? = [] := by
  rw [List.filterMap_flatMap, List.flatMap_eq_nil_iff]
  intro step _
  cases step <;> simp [idleEvents, Event.heapUse?]

/-- A step without a call keeps memory. -/
theorem keepsMemory_of_call?_eq_none (noCall : step.call? = none) : step.KeepsMemory env := by
  cases step with
  | finalizeScalar | finalizeArray => cases noCall
  | _ => trivial

/-- A step without a call leaves at most a trace of the way. -/
theorem isEntering_of_mem_idleEvents (noCall : step.call? = none) :
    ∀ e ∈ step.idleEvents env, e.isEntering := by
  have traced {trace : Trace} (entering : (Event.trace trace).isEntering) :
      ∀ e ∈ env.traceEvents trace, e.isEntering := by
    unfold Environment.traceEvents
    split <;> simp [entering]
  cases step with
  | finalizeScalar | finalizeArray => cases noCall
  | enterComponents | enterParent => exact traced rfl
  | release | orphan => simp [idleEvents]

end TeardownStep

open TeardownStep

namespace DerivedType

variable {env : Environment} {ty : DerivedType} {a : Address} {finalize : Bool} {M : Machine}

/-- What the teardown of an instance does that owns no storage. -/
theorem destroyScalar_of_idle (sound : ty.Throughout TeardownSound)
    (keeps : finalize = true → ty.Throughout (CallsSatisfy env.context (KeepsMemory env)))
    (idle : ∀ s ∈ ty.slots a, M.memory.Vacant s) :
    ty.destroyScalar env a finalize M =
      .ok ()
        (M.recordAll ((ty.scalarSteps env.context a finalize).flatMap (·.idleEvents env))) := by
  rw [destroyScalar_eq]
  exact forM_of_idle _ (resolved_scalarSteps _ sound a finalize)
    (forall_mem_scalarSteps (fun _ _ noCall => keepsMemory_of_call?_eq_none noCall) sound keeps a)
    fun s mem => idle s ((released_scalarSteps _ sound a finalize).mem_iff.mp mem)

/-- What the teardown of components does that own no storage. -/
theorem destroyComponents_of_idle (sound : ty.Throughout TeardownSound)
    (keeps : finalize = true → ty.Throughout (CallsSatisfy env.context (KeepsMemory env)))
    (idle : ∀ s ∈ ty.slots a, M.memory.Vacant s) :
    ty.destroyComponents env a finalize M =
      .ok ()
        (M.recordAll ((ty.componentSteps env.context a finalize).flatMap (·.idleEvents env))) := by
  rw [destroyComponents_eq]
  exact forM_of_idle _ (resolved_componentSteps _ sound a finalize)
    (forall_mem_componentSteps (fun _ _ noCall => keepsMemory_of_call?_eq_none noCall) sound keeps
      a)
    fun s mem => idle s
      ((released_componentSteps _ sound a finalize).mem_iff.mp (List.mem_append_left _ mem))

/-! ### Without finalization -/

/-- A teardown of an instance that owns no storage changes nothing, if it does not finalize. -/
theorem exists_destroyScalar_false (sound : ty.Throughout TeardownSound)
    (idle : ∀ s ∈ ty.slots a, M.memory.Vacant s) :
    ∃ way, ty.destroyScalar env a false M = .ok () (M.recordAll way) ∧ ∀ e ∈ way, e.isEntering := by
  refine ⟨_, destroyScalar_of_idle sound (by simp) idle, List.forall_mem_flatMap.mpr ?_⟩
  exact forall_mem_scalarSteps (fun _ _ noCall => isEntering_of_mem_idleEvents noCall) sound
    (by simp) a

/-- A teardown of components that own no storage changes nothing, if it does not finalize. -/
theorem exists_destroyComponents_false (sound : ty.Throughout TeardownSound)
    (idle : ∀ s ∈ ty.slots a, M.memory.Vacant s) :
    ∃ way, ty.destroyComponents env a false M = .ok () (M.recordAll way) ∧
    ∀ e ∈ way, e.isEntering := by
  refine ⟨_, destroyComponents_of_idle sound (by simp) idle, List.forall_mem_flatMap.mpr ?_⟩
  exact forall_mem_componentSteps (fun _ _ noCall => isEntering_of_mem_idleEvents noCall) sound
    (by simp) a

end DerivedType

end DerivedTypes
