import DerivedTypes.Proofs.DefaultValue.FreshStorage
import DerivedTypes.Recording

namespace DerivedTypes

/-!
# Default initialization comes to an end

What initializers do to memory does not matter to whether default initialization comes to an end, as
long as they take no storage away: each step stores inside the instance that it is for, and there is
room for that all the time.

* `Environment.KeepsRoom`: procedures take no storage away, and recorded ones never do;
* `Descriptor.exists_setDefaults_of_room`: where there is room for all elements, they get their
  default values;
* `Descriptor.heapLog_of_setDefaults`: the allocator has no part in it, whatever procedures do.
-/

/-- Procedures take no storage away: where there was room, there is room after a call. -/
def Environment.KeepsRoom (env : Environment) : Prop :=
  ∀ entry argument (m : Memory) a n, m.spans a n → (env.code entry argument m).2.spans a n

namespace Recording

variable {m : Memory} {a b : Address} {n : Nat}

/-- A store that is left out or done leaves all storage there. -/
theorem spans_writeIfFits (bytes : List UInt8) :
    (writeIfFits m b bytes).spans a n = m.spans a n := by
  unfold writeIfFits
  split
  · exact Memory.spans_write ..
  · rfl

/-- So does an addition. -/
theorem spans_addIfFits (k : Nat) : (addIfFits m b k).spans a n = m.spans a n := by
  unfold addIfFits
  split
  · rfl
  · exact Memory.spans_write ..

/-- A recorded procedure leaves all storage where it is. -/
theorem spans_run (r : Recording) (argument : Argument) :
    (r.run argument m).2.spans a n = m.spans a n := by
  unfold run
  cases origin argument with
  | none => rfl
  | some start =>
    dsimp only
    -- The recorded stores keep it one by one.
    generalize written : r.writes.foldl _ m = m₁
    have kept : m₁.spans a n = m.spans a n := by
      rw [← written]
      exact List.foldlRecOn (motive := fun m₂ : Memory => m₂.spans a n = m.spans a n) _ _ rfl
        fun _ same _ _ => (spans_writeIfFits _).trans same
    cases r.increment with
    | none => exact kept
    | some change => exact (spans_addIfFits _).trans kept

end Recording

/-- Recorded code takes no storage away. -/
theorem Environment.keepsRoom_ofRecordings (context : ExecutionContext) (traces : Bool)
    (recordings : Array Recording) (heapLimit : Nat) :
    (ofRecordings context traces recordings heapLimit).KeepsRoom :=
  fun _ _ _ _ _ room => (Recording.spans_run ..).trans room

namespace DefaultStep

variable {env : Environment} {step : DefaultStep} {steps : List DefaultStep} {a : Address} {n : Nat}
  {M M' : Machine}

/-- A step comes to an end where there is room for what it stores, and it takes no room away. -/
theorem exists_run_of_room (keeps : env.KeepsRoom) (step : DefaultStep)
    (fits : M.memory.RoomFor .silent step.effects) :
    ∃ M', step.run env M = .ok () M' ∧ ∀ a n, M.memory.spans a n → M'.memory.spans a n := by
  have written {trace : Trace} {s : Store} (room : M.memory.Admits s.address s.bytes.length) :
      ∃ M', (do Run.trace env trace; Run.writeBytes s.address s.bytes) M = .ok () M' ∧
        ∀ a n, M.memory.spans a n → M'.memory.spans a n := by
    rw [Run.bind_of_ok (Run.trace_apply ..), Run.writeBytes_of_fits (M := M.recordAll _) room]
    refine ⟨_, rfl, fun a n there => ?_⟩
    rw [Machine.memory_withMemory, Memory.spans_write]
    exact there
  cases step with
  | copyImage ty image a => exact written (fits _ List.mem_cons_self _ List.mem_cons_self)
  | callInitializer ty p entry a =>
    rw [run, Run.bind_of_ok (Run.trace_apply ..), Run.bind_of_ok (Run.call_apply ..)]
    exact ⟨_, rfl, fun a n there => keeps entry _ _ a n there⟩
  | zeroFill ty a =>
    rw [run, Run.fillZero_eq_writeBytes]
    exact written (s := ⟨a, .replicate ty.size.toNat 0⟩)
      (fits _ List.mem_cons_self _ List.mem_cons_self)
  | enterComponents ty => exact ⟨_, Run.trace_apply .., fun _ _ there => there⟩

/-- Steps whose stores lie inside a span come to an end where there is room for the span. -/
theorem exists_forM_of_room (keeps : env.KeepsRoom)
    (inside : ∀ e ∈ steps.flatMap effects, e.Inside .silent a n) (room : M.memory.Admits a n) :
    ∃ M', forM steps (run env) M = .ok () M' := by
  induction steps generalizing M with
  | nil => exact ⟨M, rfl⟩
  | cons step rest ih =>
    rw [List.flatMap_cons] at inside
    obtain ⟨own, others⟩ := List.forall_mem_append.mp inside
    obtain ⟨M₁, first, spans⟩ :=
      exists_run_of_room keeps step fun e mem s stored => room.inside (own e mem s stored)
    obtain ⟨M₂, rest⟩ := ih others (room.imp_right (spans a n))
    exact ⟨M₂, (Run.forM_cons_of_ok first).trans rest⟩

end DefaultStep

namespace Descriptor

variable {env : Environment} {d : Descriptor} {data : Address} {M M' : Machine}

/-- Elements are as large as instances of the type that is named, if one is, and the type is laid
    out. -/
def MatchesType (d : Descriptor) : Prop :=
  ∀ ty, d.derivedType? = some ty → d.elementSize = ty.size ∧ ty.Throughout DerivedType.LaidOut

/-- Default initialization is nothing to the allocator. -/
theorem heapLog_of_setDefaults (ended : d.setDefaults env data M = .ok () M') :
    M'.heapLog = M.heapLog := by
  rw [setDefaults_eq] at ended
  exact DefaultStep.heapLog_of_forM ended

/-- Where there is room for all elements, they get their default values. -/
theorem exists_setDefaults_of_room (keeps : env.KeepsRoom) (typed : d.MatchesType)
    (room : M.memory.Admits data (d.elementCount * d.elementSize.toNat)) :
    ∃ M', d.setDefaults env data M = .ok () M' := by
  rw [setDefaults_eq]
  refine DefaultStep.exists_forM_of_room keeps ?_ room
  cases named : d.derivedType? with
  | none =>
    rw [defaultSteps, named]
    intro _ mem
    cases mem
  | some ty =>
    obtain ⟨size, laid⟩ := typed ty named
    exact inside_effects_defaultSteps named size laid

end Descriptor

end DerivedTypes
