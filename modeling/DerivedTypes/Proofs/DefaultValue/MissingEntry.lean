import DerivedTypes.Proofs.DefaultValue.BlankSlots
import DerivedTypes.Proofs.DefaultValue.Refinement

namespace DerivedTypes

/-!
# Initializers without an entry point

A type with an initializer initializes itself, and so asks nothing of its components. If the
initializer has no entry point for the context, then nobody gives the components their default
values: default initialization does nothing at all (`DerivedType.setDefault_of_missing_entry`).
Without the initializer, the same table would be initialized component by component
(`DerivedType.withoutInitializers`).

* `DefaultStep.forM_withoutCode`: steps that call nothing do not depend on any code;
* `DerivedType.exists_setDefault_withoutInitializers`: what would happen without the initializer;
* `DerivedType.setDefault_eq_withoutInitializers_iff`: the two come to the same exactly where the
  components ask for nothing that is not there already.
-/

/-! ### Steps without calls -/

/-- The same environment, where procedures do nothing. -/
def Environment.withoutCode (env : Environment) : Environment :=
  { env with code := fun _ argument m => (argument, m) }

/-- Without code memory is left alone. -/
theorem Environment.inert_withoutCode (env : Environment) :
    env.withoutCode.Inert := fun _ _ _ => rfl

namespace DefaultStep

variable {env : Environment} {step : DefaultStep} {steps : List DefaultStep} {M M' : Machine}

/-- A step that calls nothing does not depend on any code. -/
theorem run_withoutCode (silent : step.effects.flatMap (·.calls) = []) :
    step.run env.withoutCode = step.run env := by
  cases step with
  | callInitializer => cases silent
  | _ => rfl

/-- Steps that call nothing do the same without code. -/
theorem forM_withoutCode (silent : (steps.flatMap effects).flatMap (·.calls) = []) :
    (forM steps (run env.withoutCode) : Run Unit) = forM steps (run env) := by
  induction steps with
  | nil => rfl
  | cons step rest ih =>
    rw [List.flatMap_cons, List.flatMap_append, List.append_eq_nil_iff] at silent
    rw [List.forM_cons, List.forM_cons, run_withoutCode silent.1, ih silent.2]

end DefaultStep

/-! ### The missing entry point -/

namespace DerivedType

variable {context : ExecutionContext} {env : Environment} {ty : DerivedType} {a : Address}
  {p : Procedure}

/-- The same table without procedures in the role of an initializer. -/
def withoutInitializers (ty : DerivedType) : DerivedType :=
  { ty with procedures := ty.procedures.filter (!·.isInitializer) }.summarize

/-- A type whose initializer has no entry point still counts as one that initializes itself. -/
theorem initializesItself_of_initializer (last : ty.initializer? = some p) :
    ty.initializesItself := by
  have mem := List.mem_of_getLast? last
  obtain ⟨there, role⟩ := List.mem_filter.mp mem
  rw [initializesItself, Bool.or_eq_true, List.any_eq_true]
  exact .inr ⟨p, there, role⟩

/-- A procedure that is missing in a context leaves no entry there. -/
theorem initializerEntry?_of_missing (last : ty.initializer? = some p)
    (missing : p.code.entry? context = none) : ty.initializerEntry? context = none := by
  unfold initializerEntry?
  rw [last, Option.bind_some, missing]
  rfl

/-- A missing entry point leaves the machine as it was. -/
theorem setDefault_of_missing_entry (h : ty.Summarized) (noImage : ty.image = none)
    (last : ty.initializer? = some p) (missing : p.code.entry? env.context = none) (a : Address)
    (M : Machine) : ty.setDefault env a M = .ok () M := by
  rw [setDefault_eq, h.defaultSteps_of_initializesItself
    (initializesItself_of_initializer last) noImage
    (initializerEntry?_of_missing last missing)]
  rfl

/-! ### Without the initializer -/

/-- Types without initializers carry the right summaries if the types did before. -/
theorem summarized_withoutInitializers (h : ty.Summarized) : ty.withoutInitializers.Summarized :=
  summarized_summarize fun _ mem _ named => h.of_component mem named

/-- No initializer is left. -/
theorem initializer?_withoutInitializers (ty : DerivedType) :
    ty.withoutInitializers.initializer? = none := by
  have none : (ty.procedures.filter (!·.isInitializer)).filter (·.isInitializer) = [] := by
    simp [List.filter_filter]
  show ((ty.procedures.filter (!·.isInitializer)).filter (·.isInitializer)).getLast? = .none
  rw [none, List.getLast?_nil]

/-- What holds of the table without its initializer, and of all types inside it. -/
theorem throughout_withoutInitializers {P : DerivedType → Prop} (own : P ty.withoutInitializers)
    (inside : ty.Throughout P) : ty.withoutInitializers.Throughout P :=
  .intro own fun _ mem _ _ embedded => inside.of_embedded mem embedded

/-- The layout does not depend on initializers. -/
theorem laidOut_withoutInitializers (laid : ty.Throughout LaidOut) :
    ty.withoutInitializers.Throughout LaidOut :=
  throughout_withoutInitializers ⟨laid.own.inside, laid.own.disjoint, laid.own.elementSize_eq⟩ laid

/-- Types without initializers initialize inside of themselves if the types did before. -/
theorem initializesInside_withoutInitializers (inside : ty.Throughout (InitializesInside env)) :
    ty.withoutInitializers.Throughout (InitializesInside env) := by
  refine throughout_withoutInitializers (fun procedure entry there => ?_) inside
  unfold initializerEntry? at there
  rw [initializer?_withoutInitializers] at there
  cases there

/-- Without initializer and image, a type does not initialize itself. -/
theorem initializesItself_withoutInitializers (noImage : ty.image = none) :
    ty.withoutInitializers.initializesItself = false := by
  rw [initializesItself, show ty.withoutInitializers.image = none from noImage, Option.isSome_none,
    Bool.false_or, List.any_eq_false]
  intro p mem
  simpa using (List.mem_filter.mp mem).2

end DerivedType

/-- Effects leave the bytes of a machine as they were exactly where they store what is there
    already. -/
theorem Machine.Undergoes.unchanged_iff {fixed : FixedStores} {effects : List Effect}
    {M M' : Machine} (h : M.Undergoes fixed effects M') :
    (M'.calls = M.calls ∧ ∀ b, M'.memory.byte? b = M.memory.byte? b) ↔
      effects.flatMap (·.calls) = [] ∧
        ∀ b value, Effect.last? fixed effects b = some value → M.memory.byte? b = some value := by
  rw [h.calls, List.append_right_eq_self]
  refine and_congr_right fun _ => forall_congr' fun b => ?_
  rw [h.byte?]
  cases Effect.last? fixed effects b with
  | none => simp
  | some value => simp [eq_comm]

namespace DerivedType

variable {env : Environment} {ty : DerivedType} {a : Address} {p : Procedure} {M M' : Machine}

/-- Default initialization that calls nothing has its effects, whatever code there is. -/
theorem undergoes_of_silent (laid : ty.Throughout LaidOut) (room : M.memory.Admits a ty.size.toNat)
    (run : ty.setDefault env a M = .ok () M')
    (silent : (ty.defaultEffects env.context a).flatMap (·.calls) = []) :
    M.Undergoes .silent (ty.defaultEffects env.context a) M' := by
  obtain ⟨M₁, again, underwent⟩ := DefaultStep.exists_forM env.inert_withoutCode.storesFixed
    (inside_defaultEffects laid.effectsInside_silent) room
  rw [List.forM_eq_forM, DefaultStep.forM_withoutCode
    silent, ← List.forM_eq_forM, ← setDefault_eq] at again
  cases run.symm.trans again
  exact underwent

/-- Without the initializer, the components get their default values: descriptors become zeros. -/
theorem exists_setDefault_withoutInitializers (h : ty.Summarized) (noImage : ty.image = none)
    (laid : ty.Throughout LaidOut) (inside : ty.Throughout (InitializesInside env))
    (room : M.memory.Admits a ty.size.toNat) :
    ∃ M₀, ty.withoutInitializers.setDefault env a M = .ok () M₀ ∧
      ∀ s, .slot s ∈ ty.parts a → ∀ b : Address, b.InSpan s descriptorBytes →
        M₀.memory.byte? b = some 0 := by
  obtain ⟨M₀, run, _, blanked⟩ := exists_defaultSteps_blank (summarized_withoutInitializers h)
    (laidOut_withoutInitializers laid) (initializesInside_withoutInitializers inside) room
  refine ⟨M₀, ?_, fun s part => blanked s ?_⟩
  · rw [setDefault_eq]
    exact run
  · rw [plainSlots_eq (initializesItself_withoutInitializers noImage)]
    exact List.mem_flatMap.mpr ⟨.slot s, part, List.mem_singleton_self s⟩

/-- An initializer without an entry point for the context makes default initialization do nothing.
    Without the initializer, descriptor components become zeros and embedded elements get their
    default values: the two agree exactly if the components call no initializer and all bytes that
    they store are there already. -/
theorem setDefault_eq_withoutInitializers_iff (h : ty.Summarized) (noImage : ty.image = none)
    (last : ty.initializer? = some p) (missing : p.code.entry? env.context = none)
    (laid : ty.Throughout LaidOut) (inside : ty.Throughout (InitializesInside env))
    (room : M.memory.Admits a ty.size.toNat) :
    ∃ M₀, ty.setDefault env a M = .ok () M ∧ ty.withoutInitializers.setDefault env a M = .ok () M₀ ∧
      (∀ s, .slot s ∈ ty.parts a → ∀ b : Address, b.InSpan s descriptorBytes →
        M₀.memory.byte? b = some 0) ∧
      ((M₀.calls = M.calls ∧ ∀ b, M₀.memory.byte? b = M.memory.byte? b) ↔
        (ty.withoutInitializers.defaultEffects env.context a).flatMap (·.calls) = [] ∧
          ∀ b value, Effect.last? .silent (ty.withoutInitializers.defaultEffects env.context a) b =
            some value →
            M.memory.byte? b = some value) := by
  obtain ⟨M₀, run, zeros⟩ := exists_setDefault_withoutInitializers h noImage laid inside room
  refine ⟨M₀, setDefault_of_missing_entry h noImage last missing a M, run, zeros, ?_⟩
  by_cases silent : (ty.withoutInitializers.defaultEffects env.context a).flatMap (·.calls) = []
  · exact (undergoes_of_silent (laidOut_withoutInitializers laid) room run silent).unchanged_iff
  · -- The run has called something, so neither side holds.
    rw [setDefault_eq, List.forM_eq_forM] at run
    have called : M₀.calls = M.calls ++
        (ty.withoutInitializers.defaultEffects env.context a).flatMap (·.calls) :=
      DefaultStep.calls_of_forM run
    rw [called, List.append_right_eq_self]
    exact ⟨fun same => absurd same.1 silent, fun same => absurd same.1 silent⟩

end DerivedType

/-! ### A log -/

namespace Log

/-- A descriptor, and an initializer that only the host has code for. -/
def log : DerivedType :=
  { number := 0, name := "log", parameters := [], components := [.descriptor "data" .derived 0],
    procedures := [.initializer "init" ⟨some ⟨0⟩, none⟩], image := none, size := 456,
    isSequence := false,
    isBindC := false : DerivedType }.summarize

/-- A device whose code does nothing. -/
def device : Environment := .withoutHeap .device false fun _ argument m => (argument, m)

/-- A buffer of the size of a log, full of garbage. -/
def machine : Machine := ⟨.ofBuffers default #[] [.replicate 456 165], #[]⟩

/-- The example is built by `DerivedType.summarize`. -/
theorem summarized_log : log.Summarized := by
  refine DerivedType.summarized_summarize fun c mem inner named => ?_
  obtain rfl := List.mem_singleton.mp mem
  cases named

/-- A log lies as it should. -/
theorem laidOut_log : log.Throughout DerivedType.LaidOut :=
  .of_plain (.of_ordered (by decide) (by decide) (by decide)) (by decide)

/-- The initializer of a log has no code on a device. -/
theorem initializesInside_log : log.Throughout (DerivedType.InitializesInside device) := by
  refine .of_plain (fun p entry there => ?_) (by decide)
  cases there

/-- There is room for a log. -/
theorem admits_log : machine.memory.Admits ⟨.buffer 0, 0⟩ log.size.toNat := by
  refine .inr (Memory.spans_iff.mpr ⟨(List.replicate 456 165).toArray, rfl, ?_⟩)
  rw [List.size_toArray, List.length_replicate]
  decide

/-- Memory is full of garbage. -/
theorem byte?_machine : machine.memory.byte? ⟨.buffer 0, 0⟩ = some 165 := by
  show (List.replicate 456 (165 : UInt8)).toArray[0]? = some 165
  rw [List.getElem?_toArray, List.getElem?_replicate, if_pos (by decide)]

/-- A log begins with a descriptor. -/
theorem slot_mem_parts : .slot ⟨.buffer 0, 0⟩ ∈ log.parts ⟨.buffer 0, 0⟩ := by
  simp [DerivedType.parts, log, Component.parts, Component.descriptor]

end Log

namespace DerivedType

/-- On a device, a log keeps the garbage that was there; without its initializer, its descriptor is
    all zeros. -/
theorem setDefault_log_leaves_garbage : ∃ M₀,
    Log.log.setDefault Log.device ⟨.buffer 0, 0⟩ Log.machine = .ok () Log.machine ∧
    Log.log.withoutInitializers.setDefault Log.device ⟨.buffer 0, 0⟩ Log.machine = .ok () M₀ ∧
    (∀ b : Address, b.InSpan ⟨.buffer 0, 0⟩ descriptorBytes → M₀.memory.byte? b = some 0) ∧
    ((M₀.calls = Log.machine.calls ∧ ∀ b, M₀.memory.byte? b = Log.machine.memory.byte? b) ↔
      (Log.log.withoutInitializers.defaultEffects .device ⟨.buffer 0, 0⟩).flatMap (·.calls) = [] ∧
        ∀ b value,
          Effect.last? .silent (Log.log.withoutInitializers.defaultEffects .device ⟨.buffer 0, 0⟩)
            b =
            some value → Log.machine.memory.byte? b = some value) := by
  obtain ⟨M₀, run, run₀, zeros, agree⟩ :=
    setDefault_eq_withoutInitializers_iff Log.summarized_log rfl rfl rfl
    Log.laidOut_log Log.initializesInside_log Log.admits_log
  exact ⟨M₀, run, run₀, zeros _ Log.slot_mem_parts, agree⟩

/-- The first byte of the log tells the two apart. -/
theorem setDefault_log_ne_withoutInitializers : ∃ M₀,
    Log.log.setDefault Log.device ⟨.buffer 0, 0⟩ Log.machine = .ok () Log.machine ∧
    Log.log.withoutInitializers.setDefault Log.device ⟨.buffer 0, 0⟩ Log.machine = .ok () M₀ ∧
    M₀.memory.byte? ⟨.buffer 0, 0⟩ ≠ Log.machine.memory.byte? ⟨.buffer 0, 0⟩ := by
  obtain ⟨M₀, run, zeros⟩ :=
    exists_setDefault_withoutInitializers Log.summarized_log rfl Log.laidOut_log
    Log.initializesInside_log Log.admits_log
  have zero := zeros _ Log.slot_mem_parts ⟨.buffer 0, 0⟩ ⟨rfl, by decide, by decide⟩
  refine ⟨M₀, setDefault_of_missing_entry Log.summarized_log rfl rfl rfl _ _, run, ?_⟩
  rw [zero, Log.byte?_machine]
  decide

end DerivedType

end DerivedTypes
