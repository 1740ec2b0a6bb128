import DerivedTypes.Proofs.Finalization.ArrayLevels

namespace DerivedTypes

/-!
# Arrays torn down element by element

A teardown selects the finalizers of an array in one way, and those of a single instance in another,
and goes on to the parent type in different orders. The two differ in nothing else. So where the
selections agree at each level (`DerivedType.FinalizesElements`), the steps for an array are those
for its elements, as long as there is one element, or one level.

* `FinalizesElements.elementSteps_eq`: an element is finalized as an instance of its own;
* `DerivedType.levelSteps_eq_scalarSteps`: one element is torn down along the chain as a single
  instance is;
* `DerivedType.levelSteps_eq_flatMap_scalarSteps`: on one level, the elements are torn down one
  after the other;
* `Descriptor.destroyElements_tears_down_instances`: the same for the operations.
-/

namespace DerivedType

/-- Arrays of a rank are finalized like their elements: the type has at most one elemental
    finalizer, and no other procedure is for arrays of the rank. -/
structure FinalizesElements (ty : DerivedType) (rank : Nat) : Prop where
  single : (ty.procedures.filter (·.isElementalFinal)).length ≤ 1
  elemental : ∀ p ∈ ty.procedures, p.isFinalForRank rank → p.isElementalFinal

variable {context : ExecutionContext} {ty : DerivedType} {rank : Nat} {d : Descriptor}
  {data : Address} {finalize : Bool}

namespace FinalizesElements

/-- No finalizer receives whole arrays. -/
theorem wholeFinalizer?_eq_none (h : ty.FinalizesElements rank) :
    ty.wholeFinalizer? rank = none := by
  refine List.find?_eq_none.mpr fun p mem suits => ?_
  rw [Bool.and_eq_true, Bool.not_eq_true'] at suits
  have elemental := h.elemental p mem suits.2
  rw [suits.1] at elemental
  cases elemental

/-- No call is for an array as a whole. -/
theorem wholeSteps_eq (h : ty.FinalizesElements rank) (finalize : Bool) (d : Descriptor)
    (data : Address) :
    (ty.arrayFinalizer rank finalize).wholeSteps context ty d data = [] := by
  cases finalize with
  | false => rfl
  | true =>
    rw [arrayFinalizer_eq, h.wholeFinalizer?_eq_none]
    cases ty.lastElementalFinalizer? <;> rfl

/-- An element is finalized as an instance of its own. -/
theorem elementSteps_eq (h : ty.FinalizesElements rank) (finalize : Bool) (e : Address) :
    (ty.arrayFinalizer rank finalize).elementSteps context ty e =
    ty.finalizeSteps context e finalize := by
  cases finalize with
  | false => rfl
  | true =>
    have single := h.single
    rw [arrayFinalizer_eq, h.wholeFinalizer?_eq_none, lastElementalFinalizer?,
      finalizeSteps, Bool.true_and]
    cases finalizers : ty.procedures.filter (·.isElementalFinal) with
    | nil => simp [ArrayFinalizer.elementSteps]
    | cons p rest =>
      -- The last elemental finalizer is the only one.
      rw [finalizers, List.length_cons] at single
      obtain rfl := List.eq_nil_of_length_eq_zero (show rest.length = 0 by omega)
      have finalizable : ty.isFinalizable = true := by
        by_contra not
        rw [filter_isElementalFinal_of_not_isFinalizable ty (by simpa using not)] at finalizers
        cases finalizers
      rw [if_pos finalizable]
      show ((p.code.entry? context).map (TeardownStep.finalizeScalar ty p · e)).toList = _
      cases code : p.code.entry? context <;> simp [code]

end FinalizesElements

/-- An array of one element is torn down as a single instance. -/
theorem levelSteps_eq_scalarSteps {ty : DerivedType} (one : d.elementAddresses data = [data])
    (h : ∀ level ∈ ty :: ty.ancestors, level.FinalizesElements d.rank.toNat) :
    ty.levelSteps context d data finalize = ty.scalarSteps context data finalize := by
  have own := h ty List.mem_cons_self
  -- The level of the type itself.
  have here : (ty.arrayFinalizer d.rank.toNat finalize).wholeSteps context ty d data ++
      ((d.elementAddresses data).flatMap fun e =>
        (ty.arrayFinalizer d.rank.toNat finalize).elementSteps context ty e ++
          ty.componentSteps context e finalize) =
      ty.finalizeSteps context data finalize ++ ty.componentSteps context data finalize := by
    rw [own.wholeSteps_eq, List.nil_append, one, List.flatMap_singleton, own.elementSteps_eq]
  cases extended : ty.isExtension with
  | false => rw [levelSteps_of_not_extension extended, scalarSteps_of_not_extension extended, here]
  | true =>
    cases named : ty.parent with
    | ok parent =>
      have := sizeOf_parent named
      have chain := ancestors_of_base? ((parent_eq_ok_iff_base? extended).mp named)
      have above : parent.levelSteps context d data finalize =
          parent.scalarSteps context data finalize := by
        refine levelSteps_eq_scalarSteps one fun level mem => h level ?_
        rw [chain]
        exact List.mem_cons_of_mem _ mem
      rw [levelSteps_of_parent extended named, scalarSteps_of_parent extended named, here, above]
    | error link =>
      rw [levelSteps_of_orphan extended named, scalarSteps_of_orphan extended named, here]
termination_by sizeOf ty

/-- An array of a type that extends no other is torn down instance by instance. -/
theorem levelSteps_eq_flatMap_scalarSteps (plain : ty.isExtension = false)
    (h : ty.FinalizesElements d.rank.toNat) :
    ty.levelSteps context d data finalize =
      (d.elementAddresses data).flatMap fun e => ty.scalarSteps context e finalize := by
  rw [levelSteps_of_not_extension plain, h.wholeSteps_eq, List.nil_append]
  congr 1
  funext e
  rw [h.elementSteps_eq, scalarSteps_of_not_extension plain]

end DerivedType

namespace Descriptor

variable {d : Descriptor} {ty : DerivedType}

/-- A scalar has one element, where its storage begins. -/
theorem elementAddresses_of_rank_eq_zero (scalar : d.rank = 0) (data : Address) :
    d.elementAddresses data = [data] := by
  have none : d.dimensions = [] := by
    rw [dimensions, scalar]
    simp
  have one : d.elementCount = 1 := by rw [elementCount, elementCount?, none]; rfl
  rw [elementAddresses, one]
  simp

/-- Where each level finalizes elements as single instances, the teardown of a scalar descriptor is
    the teardown of the instance at its address: the same events in the same order, the same memory,
    the same faults. And the teardown of an array of a type that extends no other is the teardown of
    one instance after the other, in element order. This holds step by step for one count of
    releases, and for instances that are torn down by an operation of their own wherever none gives
    up on its count. -/
theorem destroyElements_tears_down_instances (env : Environment) (named : d.derivedType? = some ty)
    (allowed : d.isFinalizationSuppressed = false) (data : Address) (finalize : Bool) :
    (d.rank = 0 → (∀ level ∈ ty :: ty.ancestors, level.FinalizesElements 0) →
      d.destroyElements env (some data) finalize = ty.destroyScalar env data finalize) ∧
    (ty.isExtension = false → ty.FinalizesElements d.rank.toNat →
      (∀ depth, d.forArraySteps env.context (TeardownStep.run env depth) data finalize =
        (List.range d.elementCount).forM fun j =>
          ty.forScalarSteps env.context (TeardownStep.run env depth)
            (data + j * d.elementSize.toNat) finalize) ∧
      Run.Alike (d.destroyElements env (some data) finalize)
        ((List.range d.elementCount).forM fun j =>
          ty.destroyScalar env (data + j * d.elementSize.toNat) finalize)) := by
  have steps : d.arraySteps env.context data finalize =
      ty.levelSteps env.context d data finalize := by
    rw [arraySteps, named]
    dsimp only
    rw [allowed, Bool.not_false, Bool.and_true]
  refine ⟨fun scalar h => ?_, fun plain h => ?_⟩
  · have one := d.elementAddresses_of_rank_eq_zero scalar data
    rw [destroyElements_eq, DerivedType.destroyScalar_eq, steps,
      DerivedType.levelSteps_eq_scalarSteps one (by rwa [scalar])]
  · have each (depth : Nat) :
        d.forArraySteps env.context (TeardownStep.run env depth) data finalize =
        (List.range d.elementCount).forM fun j =>
          ty.forScalarSteps env.context (TeardownStep.run env depth)
            (data + j * d.elementSize.toNat) finalize := by
      rw [forArraySteps_eq, steps, DerivedType.levelSteps_eq_flatMap_scalarSteps plain h,
        elementAddresses]
      simp only [List.forM_eq_forM, Run.forM_flatMap, List.forM_map, DerivedType.forScalarSteps_eq]
    refine ⟨each, fun M => ?_⟩
    show d.forArraySteps env.context (TeardownStep.run env M.memory.byteCount) data finalize M = _ ∨
      Run.GivesUp (d.forArraySteps env.context (TeardownStep.run env M.memory.byteCount)
        data finalize) M ∨ _
    rw [each]
    exact Run.Alike.forM (fun j => ty.forScalarSteps_alike env M.memory.byteCount _ finalize) _ M

end Descriptor

/-! ### Valves -/

namespace Valves

/-- A finalizer of one element. -/
def drain : Procedure := .elementalFinal "drain" ⟨some ⟨0⟩, none⟩

/-- A finalizer of one element that only devices have code for. -/
def close : Procedure := .elementalFinal "close" ⟨none, some ⟨1⟩⟩

/-- A finalizer of arrays of rank 2. -/
def flush : Procedure := .finalForRanks "flush" 4 ⟨some ⟨2⟩, none⟩

/-- A pipe owns what is in it. -/
def pipe : DerivedType :=
  { number := 0, name := "pipe", parameters := [], components := [.descriptor "content" .derived 0],
    procedures := [flush, drain], image := none, size := 456,
      isSequence := false, isBindC := false :
    DerivedType }.summarize

/-- A pipe that can be closed. -/
def valve : DerivedType :=
  { number := 1, name := "valve", parameters := [],
    components := [.parent "pipe" (.row pipe 1 456)],
    procedures := [close], image := none, size := 456, isSequence := false, isBindC := false :
    DerivedType }.summarize

/-- One valve. -/
def single : Descriptor :=
  { Descriptor.zeroed with
    elementSize := 456, typeCode := .derived, flags := 1, addendumType := some valve }

/-- Three pipes. -/
def pipes : Descriptor := .row pipe 3 456

/-- Where finalizers fill the storage of the first pipe with zeros. -/
def environment : Environment :=
  .withoutHeap .host true fun _ argument m => (argument, m.fillZero ⟨.buffer 0, 0⟩ 456)

end Valves

namespace Descriptor

open Valves

/-- One valve is torn down as an instance, as a valve and as a pipe. An array of pipes is torn down
    pipe by pipe. -/
theorem destroyElements_valves :
    single.derivedType? = some valve ∧ single.isFinalizationSuppressed = false ∧ single.rank = 0 ∧
    pipes.derivedType? = some pipe ∧ pipes.isFinalizationSuppressed = false ∧ pipes.rank = 1 ∧
    (∀ level ∈ valve :: valve.ancestors, level.FinalizesElements 0) ∧ pipe.FinalizesElements 1 ∧
    single.destroyElements environment (some ⟨.buffer 0, 0⟩) true =
      valve.destroyScalar environment ⟨.buffer 0, 0⟩ true ∧
    Run.Alike (pipes.destroyElements environment (some ⟨.buffer 0, 0⟩) true) (do
      pipe.destroyScalar environment ⟨.buffer 0, 0⟩ true
      pipe.destroyScalar environment ⟨.buffer 0, 456⟩ true
      pipe.destroyScalar environment ⟨.buffer 0, 912⟩ true) := by
  have namedValve : single.derivedType? = some valve := derivedType?_row valve 1 456
  have namedPipe : pipes.derivedType? = some pipe := derivedType?_row ..
  have allowedValve : single.isFinalizationSuppressed = false := by decide
  have allowedPipes : pipes.isFinalizationSuppressed = false := by decide
  have chain : valve :: valve.ancestors = [valve, pipe] := by
    rw [DerivedType.ancestors_of_base? (show valve.base? = some pipe from rfl),
      DerivedType.ancestors_of_base?_none (show pipe.base? = none from rfl)]
  have levels : ∀ level ∈ valve :: valve.ancestors, level.FinalizesElements 0 := by
    intro level mem
    obtain rfl | rfl : level = valve ∨ level = pipe := by simpa [chain] using mem
    · exact ⟨by decide, by decide⟩
    · exact ⟨by decide, by decide⟩
  have onePipe : pipe.FinalizesElements 1 := ⟨by decide, by decide⟩
  have ofValve :=
    (destroyElements_tears_down_instances environment namedValve allowedValve ⟨.buffer 0, 0⟩ true).1
    rfl levels
  have ofPipes :=
    ((destroyElements_tears_down_instances environment namedPipe allowedPipes ⟨.buffer 0, 0⟩ true).2
    rfl onePipe).2
  refine ⟨namedValve, allowedValve, rfl, namedPipe, allowedPipes, rfl, levels, onePipe, ofValve, ?_⟩
  have count : pipes.elementCount = 3 := by decide
  rw [count] at ofPipes
  rw [← bind_pure_unit (x := pipe.destroyScalar environment ⟨.buffer 0, 912⟩ true)]
  exact ofPipes

end Descriptor

end DerivedTypes
