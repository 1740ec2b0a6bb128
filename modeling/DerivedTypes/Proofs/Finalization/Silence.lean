import DerivedTypes.Proofs.Teardown.Origins

namespace DerivedTypes

/-!
# Teardowns without calls

A teardown that does not finalize has quiet steps: none is a call, and none is a release that
finalizes (`TeardownStep.Arises.quiet`). A release reads the descriptor whose storage it tears down,
and goes on with quiet steps if it does not finalize, or if the descriptor is marked. So nothing is
called at any depth, in whatever way the teardown ends (`TeardownStep.Quiet.obeys`,
`TeardownStep.obeysAt_run_release_of_marked`). `Environment.silent` says so of all teardowns and
their parts.
-/

namespace Run

variable {α : Type}

/-- An operation calls nothing, on any machine and however it ends. -/
def CallsNothing (x : Run α) : Prop :=
  ∀ M : Machine, (x.leaves M).calls = M.calls

/-- The law that no event is a call. -/
def Law.noCall : Law := .each fun event => event.call? = none

/-- What allows no call leaves the calls as they were. -/
theorem ObeysAt.calls_leaves {x : Run α} {M : Machine} (h : x.ObeysAt .noCall M) :
    (x.leaves M).calls = M.calls := by
  obtain ⟨es, events, quiet⟩ := h
  have none : es.filterMap Event.call? = [] := List.filterMap_eq_nil_iff.mpr quiet
  rw [Machine.calls, Machine.calls, events, Array.toList_append, List.filterMap_append,
    none, List.append_nil]

/-- What allows no call in any machine calls nothing. -/
theorem Obeys.callsNothing {x : Run α} (h : x.Obeys .noCall) :
    x.CallsNothing := fun M => (h M).calls_leaves

end Run

/-! ### Quiet steps -/

/-- The step calls no finalizer itself, and does not ask for it where it leads. -/
def TeardownStep.Quiet : TeardownStep → Prop
  | finalizeScalar .. | finalizeArray .. => False
  | release _ _ _ finalize => finalize = false
  | enterComponents _ | enterParent .. | orphan .. => True

namespace TeardownStep

/-- Steps that arise without finalization are quiet. -/
theorem Arises.quiet {context : ExecutionContext} {step : TeardownStep}
    (h : step.Arises context false) :
    step.Quiet := by
  cases h with
  | finalizeScalar asked | finalizeArray asked => cases asked
  | release _ _ _ le =>
    exact Bool.eq_false_iff.mpr fun asked => absurd (le asked) Bool.false_ne_true
  | enterComponents | enterParent | orphan => trivial

end TeardownStep

open TeardownStep

/-- The steps for described elements are quiet without finalization, or below a mark. -/
theorem Descriptor.quiet_arraySteps (context : ExecutionContext) {d : Descriptor} {finalize : Bool}
    (silent : (finalize && !d.isFinalizationSuppressed) = false) (data : Address) :
    ∀ step ∈ d.arraySteps context data finalize, step.Quiet :=
  fun step mem => Arises.quiet (silent ▸ d.arises_arraySteps context data finalize step mem)

/-- Below the marked static descriptor of a component other than a parent field, no step is a
    call. -/
theorem Component.quiet_teardownSteps (context : ExecutionContext) {c : Component}
    {shape : Descriptor} (plain : c.isDescriptor = false) (static : c.static? = some shape)
    (marked : shape.isFinalizationSuppressed = true) (ty : DerivedType) (a : Address)
    (finalize : Bool) :
    ∀ step ∈ c.teardownSteps context ty a finalize, step.Quiet := by
  rw [teardownSteps]
  split
  · exact List.forall_mem_nil _
  · rw [if_neg (by simp [plain]), static]
    exact Descriptor.quiet_arraySteps context (by simp [marked]) _

/-! ### Running quiet steps -/

namespace TeardownStep

variable {env : Environment} {depth : Nat}

/-- A release calls nothing if it does not finalize, or if the descriptor that it finds is
    marked. -/
theorem obeysAt_run_release_of_silent {ty : DerivedType} {c : Component} {s : Address}
    {finalize : Bool} {M : Machine}
    (inside : ∀ below < depth, ∀ step : TeardownStep, step.Quiet →
      (step.run env below).Obeys .noCall)
    (silent : ∀ d, M.memory.descriptor? s = some d →
      (finalize && !d.isFinalizationSuppressed) = false) :
    ((release ty c s finalize).run env depth).ObeysAt .noCall M :=
  obeysAt_run_release (Run.Law.each_allows rfl) (fun _ => Run.Law.each_allows rfl)
    (fun _ _ => Run.Law.each_allows rfl) fun d data below there lt => .forM fun step mem =>
      inside below lt step (d.quiet_arraySteps env.context (silent d there) data step mem)

/-- A quiet step calls nothing, at any depth. -/
theorem Quiet.obeys {step : TeardownStep} (h : step.Quiet) :
    (step.run env depth).Obeys .noCall := by
  induction depth using Nat.strong_induction_on generalizing step with
  | _ depth ih =>
    cases step with
    | finalizeScalar | finalizeArray => exact False.elim h
    | enterComponents | enterParent =>
      rw [TeardownStep.run]
      exact .trace _ (Run.Law.each_allows rfl)
    | orphan =>
      rw [TeardownStep.run]
      exact .fatal (Run.Law.each_allows rfl)
    | release ty c s finalize =>
      obtain rfl : finalize = false := h
      exact fun M =>
        obeysAt_run_release_of_silent (fun below lt step quiet => ih below lt quiet) fun _ _ => rfl

/-- A release calls nothing if the descriptor that it finds is marked. -/
theorem obeysAt_run_release_of_marked {ty : DerivedType} {c : Component} {s : Address}
    {finalize : Bool} {M : Machine} {d : Descriptor} (there : M.memory.descriptor? s = some d)
    (marked : d.isFinalizationSuppressed = true) :
    ((release ty c s finalize).run env depth).ObeysAt .noCall M :=
  obeysAt_run_release_of_silent (fun _ _ _ quiet => quiet.obeys) fun d' there' => by
    obtain rfl := Option.some.inj (there.symm.trans there')
    simp [marked]

end TeardownStep

/-! ### Teardowns -/

/-- A teardown calls nothing if it does not finalize, and no part of it does below a marked
    descriptor: the one whose elements or storage are torn down, the static descriptor of a
    component other than a parent field, or a descriptor in memory that is released. -/
structure Environment.Silent (env : Environment) : Prop where
  scalar : ∀ (ty : DerivedType) (a : Address), (ty.destroyScalar env a false).CallsNothing
  components : ∀ (ty : DerivedType) (a : Address), (ty.destroyComponents env a false).CallsNothing
  elements : ∀ (d : Descriptor) (data : Option Address) (finalize : Bool),
    finalize = false ∨ d.isFinalizationSuppressed = true →
    (d.destroyElements env data finalize).CallsNothing
  storage : ∀ (d : Descriptor) (finalize : Bool),
    finalize = false ∨ d.isFinalizationSuppressed = true → (d.deallocate env finalize).CallsNothing
  embedded :
    ∀ (ty : DerivedType) (c : Component) (shape : Descriptor) (a : Address)
      (finalize : Bool) (depth : Nat),
    c.isDescriptor = false → c.static? = some shape → shape.isFinalizationSuppressed = true →
    ((c.teardownSteps env.context ty a finalize).forM (TeardownStep.run env depth)).CallsNothing
  released :
    ∀ (ty : DerivedType) (c : Component) (s : Address) (d : Descriptor)
      (finalize : Bool) (depth : Nat)
    (M : Machine), M.memory.descriptor? s = some d → d.isFinalizationSuppressed = true →
    (((TeardownStep.release ty c s finalize).run env depth).leaves M).calls = M.calls

/-- Teardowns are silent, whatever the environment is. -/
theorem Environment.silent (env : Environment) : env.Silent := by
  have steps (step : TeardownStep) (arises : step.Arises env.context false) (depth : Nat) :
      (step.run env depth).Obeys .noCall := arises.quiet.obeys
  -- Below a mark, steps arise as they do without finalization.
  have below {d : Descriptor} {finalize : Bool} (silent : finalize = false ∨
    d.isFinalizationSuppressed = true) :
      (finalize && !d.isFinalizationSuppressed) = false := by
    rcases silent with rfl | marked
    · rfl
    · simp [marked]
  exact {
    scalar := fun ty a => (ty.obeys_destroyScalar steps a).callsNothing
    components := fun ty a => (ty.obeys_destroyComponents steps a).callsNothing
    elements := fun d data _ silent =>
      (Descriptor.obeys_destroyElements (fun step arises => steps step (below silent ▸ arises))
        data).callsNothing
    storage := fun d _ silent =>
      (Descriptor.obeys_deallocate (fun step arises => steps step (below silent ▸ arises))
        (fun _ => Run.Law.each_allows rfl) fun _ _ => Run.Law.each_allows rfl).callsNothing
    embedded :=
      fun ty _ _ a finalize _ plain static mark => Run.Obeys.callsNothing <| .forM fun step mem =>
        (Component.quiet_teardownSteps env.context plain static mark ty a finalize step mem).obeys
    released :=
      fun _ _ _ _ _ _ _ there mark => (obeysAt_run_release_of_marked there mark).calls_leaves }

end DerivedTypes
