import DerivedTypes.Proofs.Teardown.Chain

namespace DerivedTypes

/-!
# Finalizers of arrays

The teardown of an array looks through the procedures of a type once, with the last elemental
finalizer in mind until one for the rank turns up. What comes of it does not depend on the pass: the
first procedure for the rank that is not elemental receives the whole array; if there is none, the
last elemental one receives each element.

* `ArrayFinalizer.select_eq`: the finalizer of an array at one level of its type;
* `DerivedType.finalizeArrayLevel`: one level of the teardown of an array, by these two rules;
* `Descriptor.destroyElements_walks_levels`: the teardown of an array is a walk along the chain of
  extended types, and what a finalizer leaves in its argument is lost.
-/

/-- The first procedure of a type that receives whole arrays of a rank: elemental ones never do. -/
def DerivedType.wholeFinalizer? (ty : DerivedType) (rank : Nat) : Option Procedure :=
  ty.procedures.find? fun p => !p.isElementalFinal && p.isFinalForRank rank

/-- The last elemental finalizer of a type. -/
def DerivedType.lastElementalFinalizer? (ty : DerivedType) : Option Procedure :=
  (ty.procedures.filter (·.isElementalFinal)).getLast?

/-- What a pass through procedures selects, with `last` for the elemental finalizer met before. -/
theorem ArrayFinalizer.select_eq (rank : Nat) (last : Option Procedure)
    (procedures : List Procedure) :
    select rank last procedures =
      match procedures.find? fun p => !p.isElementalFinal && p.isFinalForRank rank with
      | some p => whole p
      | .none =>
        match (procedures.filter (·.isElementalFinal)).getLast?.or last with
        | some p => each p
        | .none => none := by
  induction procedures generalizing last with
  | nil => cases last <;> rfl
  | cons p rest ih =>
    rw [select]
    by_cases elemental : p.isElementalFinal
    · rw [if_pos elemental, ih, List.find?_cons_of_neg (by simp [elemental]),
        List.filter_cons_of_pos elemental, List.getLast?_cons]
      cases (rest.filter (·.isElementalFinal)).getLast? <;> rfl
    · rw [if_neg elemental]
      by_cases forRank : p.isFinalForRank rank
      · rw [if_pos forRank, List.find?_cons_of_pos (by simp [elemental, forRank])]
      · rw [if_neg forRank, ih, List.find?_cons_of_neg (by simp [forRank]),
          List.filter_cons_of_neg elemental]

namespace DerivedType

variable {env : Environment} {ty : DerivedType} {d : Descriptor} {data : Address} {rank : Nat}

/-- A type that is not finalizable has none of the finalizers that a pass looks for. -/
theorem find?_of_not_isFinalizable (not : ty.isFinalizable = false) (rank : Nat) :
    ty.wholeFinalizer? rank = none ∧ ty.lastElementalFinalizer? = none := by
  constructor
  · refine List.find?_eq_none.mpr fun p mem suits => ?_
    rw [Bool.and_eq_true] at suits
    exact List.any_eq_false.mp not p mem (Procedure.isFinalizer_of_isFinalForRank suits.2)
  · rw [lastElementalFinalizer?, filter_isElementalFinal_of_not_isFinalizable ty not,
      List.getLast?_nil]

/-- The finalizer of an array at the level of a type. -/
theorem arrayFinalizer_eq (ty : DerivedType) (rank : Nat) :
    ty.arrayFinalizer rank true =
      match ty.wholeFinalizer? rank with
      | some p => .whole p
      | none =>
        match ty.lastElementalFinalizer? with
        | some p => .each p
        | none => .none := by
  unfold arrayFinalizer
  rw [Bool.true_and]
  cases finalizable : ty.isFinalizable with
  | true =>
    rw [if_pos rfl, ArrayFinalizer.select_eq, Option.or_none, wholeFinalizer?,
      lastElementalFinalizer?]
  | false =>
    obtain ⟨noWhole, noElemental⟩ := find?_of_not_isFinalizable finalizable rank
    rw [if_neg (by simp), noWhole, noElemental]

/-- One level of the teardown of an array with finalization. If some procedure receives arrays of
    the rank, the first one is called on the whole array, at its place in memory, before the
    components of all elements are torn down. If not, the last elemental finalizer is called on each
    element right before the components of that element are torn down. -/
def finalizeArrayLevel (env : Environment) (ty : DerivedType) (d : Descriptor) (data : Address)
    (components : Address → Run Unit) : Run Unit :=
  match ty.wholeFinalizer? d.rank.toNat, ty.lastElementalFinalizer? with
  | some p, _ => do
    Run.callFinalizer env ty p (.array { d with base := some data })
    d.forElements data components
  | none, some p =>
    d.forElements data fun e => do
      Run.callFinalizer env ty p (.scalar e)
      components e
  | none, none => d.forElements data components

/-- Levels that do alike with the components of each element are alike. -/
theorem finalizeArrayLevel_alike (env : Environment) (ty : DerivedType) (d : Descriptor)
    (data : Address) {components components' : Address → Run Unit}
    (h : ∀ e, Run.Alike (components e) (components' e)) :
    Run.Alike (ty.finalizeArrayLevel env d data components)
      (ty.finalizeArrayLevel env d data components') := by
  unfold finalizeArrayLevel
  simp only [Descriptor.forElements_eq]
  split
  · exact .bind (.refl _) fun _ => .forM h _
  · exact .forM (fun e => .bind (.refl _) fun _ => h e) _
  · exact .forM h _

/-- The step that calls a finalizer on a whole array, if there is one, makes the call. -/
theorem forM_finalizeArray (env : Environment) (depth : Nat) (ty : DerivedType) (p : Procedure)
    (view : Descriptor) :
    ((p.code.entry? env.context).map (TeardownStep.finalizeArray ty p · view)).toList.forM
      (TeardownStep.run env depth) = Run.callFinalizer env ty p (.array view) := by
  unfold Run.callFinalizer
  cases p.code.entry? env.context with
  | none => rfl
  | some entry => simp [TeardownStep.run]

/-- What a teardown does at one level of an array. -/
theorem forM_arrayFinalizer (env : Environment) (depth : Nat) (ty : DerivedType) (d : Descriptor)
    (data : Address) (components : Address → Run Unit) :
    (do
      ((ty.arrayFinalizer d.rank.toNat true).wholeSteps env.context ty d data).forM
        (TeardownStep.run env depth)
      d.forElements data fun e => do
        ((ty.arrayFinalizer d.rank.toNat true).elementSteps env.context ty e).forM
          (TeardownStep.run env depth)
        components e) =
      ty.finalizeArrayLevel env d data components := by
  rw [arrayFinalizer_eq, finalizeArrayLevel]
  cases ty.wholeFinalizer? d.rank.toNat with
  | some p =>
    simp only [ArrayFinalizer.wholeSteps, ArrayFinalizer.elementSteps, forM_finalizeArray]
    rfl
  | none =>
    cases ty.lastElementalFinalizer? with
    | some p =>
      simp only [ArrayFinalizer.wholeSteps, ArrayFinalizer.elementSteps, forM_finalizeScalar]
      rfl
    | none => rfl

/-- One level after the other, with one count for all of them. -/
theorem forLevelSteps_walks_chain (env : Environment) (depth : Nat) (ty : DerivedType)
    (d : Descriptor) (data : Address) :
    ty.forLevelSteps env.context (TeardownStep.run env depth) d data true =
      Run.walkChain env (fun level => level.finalizeArrayLevel env d data fun e =>
        level.forComponentSteps env.context (TeardownStep.run env depth) e true)
          (ty :: ty.ancestors) := by
  rw [walkChain_cons, forLevelSteps, ← forM_arrayFinalizer env depth, bind_assoc]
  congr 1
  funext _
  congr 1
  funext _
  split
  · split
    · next parent named =>
      have := sizeOf_parent named
      rw [forLevelSteps_walks_chain env depth parent, TeardownStep.run, named]
    · next link missing => rw [TeardownStep.run, missing]
  · rfl
termination_by sizeOf ty

end DerivedType

/-! ### What a finalizer leaves in its argument -/

/-- Code that changes memory as before, but leaves other things in its argument. -/
def Environment.answering (env : Environment) (answer : EntryPoint → Argument → Memory → Argument) :
    Environment :=
  { env with
    code := fun entry argument m => (answer entry argument m, (env.code entry argument m).2) }

/-- No step looks at what a finalizer leaves in its argument. -/
theorem TeardownStep.run_answering (env : Environment)
    (answer : EntryPoint → Argument → Memory → Argument) (depth : Nat) (step : TeardownStep) :
    step.run (env.answering answer) depth = step.run env depth := by
  induction depth generalizing step with
  | zero =>
    cases step <;> simp only [TeardownStep.run] <;> rfl
  | succ depth ih =>
    cases step with
    | release ty c a finalize =>
      simp only [TeardownStep.run, Descriptor.forArraySteps_eq, funext ih]
      rfl
    | _ => simp only [TeardownStep.run] <;> rfl

namespace Descriptor

variable {d : Descriptor} {ty : DerivedType}

/-- The teardown of an array with finalization is a walk along the chain of the types that its type
    extends. At each of them, the first procedure for the rank that is not elemental is called on
    the whole array, or else the last elemental finalizer on each element, and the components of all
    elements are torn down. This holds step by step for one count of releases, and for components
    that are torn down by an operation of their own wherever none gives up on its count. Whatever
    else procedures leave in their arguments, the teardown is the same. -/
theorem destroyElements_walks_levels (env : Environment) (named : d.derivedType? = some ty)
    (allowed : d.isFinalizationSuppressed = false) (data : Address) :
    (∀ depth, d.forArraySteps env.context (TeardownStep.run env depth) data true =
      Run.walkChain env (fun level => level.finalizeArrayLevel env d data fun e =>
        level.forComponentSteps env.context (TeardownStep.run env depth) e true)
          (ty :: ty.ancestors)) ∧
    Run.Alike (d.destroyElements env (some data) true)
      (Run.walkChain env (fun level => level.finalizeArrayLevel env d data fun e =>
        level.destroyComponents env e true) (ty :: ty.ancestors)) ∧
    ∀ answer, d.destroyElements (env.answering answer) (some data) true =
    d.destroyElements env (some data) true := by
  have walk (depth : Nat) : d.forArraySteps env.context (TeardownStep.run env depth) data true =
      Run.walkChain env (fun level => level.finalizeArrayLevel env d data fun e =>
        level.forComponentSteps env.context (TeardownStep.run env depth) e true)
          (ty :: ty.ancestors) := by
    rw [forArraySteps, named]
    dsimp only
    rw [allowed]
    exact ty.forLevelSteps_walks_chain env depth d data
  refine ⟨walk, fun M => ?_, fun answer => ?_⟩
  · show d.forArraySteps env.context (TeardownStep.run env M.memory.byteCount) data true M = _ ∨
      Run.GivesUp (d.forArraySteps env.context (TeardownStep.run env M.memory.byteCount) data true)
        M ∨ _
    rw [walk]
    exact Run.Alike.walkChain (fun level => level.finalizeArrayLevel_alike env d data fun e =>
      level.forComponentSteps_alike env M.memory.byteCount e true) _ M
  · simp only [destroyElements_eq, funext (TeardownStep.run_answering env answer _)]
    rfl

end Descriptor

/-! ### Tiles -/

namespace Tiles

/-- A finalizer of whole rows. -/
def sweep : Procedure := .finalForRanks "sweep" 2 ⟨some ⟨0⟩, none⟩

/-- A finalizer of one element. -/
def wipe : Procedure := .elementalFinal "wipe" ⟨some ⟨1⟩, none⟩

/-- Eight bytes with two finalizers, the one for rows last. -/
def square : DerivedType :=
  { number := 0, name := "square", parameters := [], components := [],
    procedures := [wipe, sweep], image := none,
    size := 8, isSequence := false, isBindC := false : DerivedType }.summarize

/-- A square with two elemental finalizers. -/
def tile : DerivedType :=
  { number := 1, name := "tile", parameters := [],
    components := [.parent "square" (.row square 1 8)],
    procedures := [.elementalFinal "dust" ⟨some ⟨2⟩, none⟩, wipe], image := none, size := 8,
    isSequence := false,
    isBindC := false : DerivedType }.summarize

/-- Three tiles. -/
def tiles : Descriptor := .row tile 3 8

/-- Where finalizers do nothing. -/
def environment : Environment := .withoutHeap .host true fun _ argument m => (argument, m)

end Tiles

namespace Descriptor

open Tiles

/-- The tiles are wiped one by one, and as squares they are swept together. -/
theorem destroyElements_tiles :
    tiles.derivedType? = some tile ∧ tiles.isFinalizationSuppressed = false ∧
    Run.Alike (tiles.destroyElements environment (some ⟨.buffer 0, 0⟩) true) (do
      tiles.forElements ⟨.buffer 0, 0⟩ fun e => do
        Run.callFinalizer environment tile wipe (.scalar e)
        tile.destroyComponents environment e true
      Run.trace environment (.enterParent tile square)
      Run.callFinalizer environment square sweep (.array { tiles with base := some ⟨.buffer 0, 0⟩ })
      tiles.forElements ⟨.buffer 0, 0⟩ fun e => square.destroyComponents environment e true) := by
  have allowed : tiles.isFinalizationSuppressed = false := by decide
  have named : tiles.derivedType? = some tile := derivedType?_row ..
  obtain ⟨_, alike, _⟩ := destroyElements_walks_levels environment named allowed ⟨.buffer 0, 0⟩
  refine ⟨named, allowed, ?_⟩
  have chain : tile :: tile.ancestors = [tile, square] := by
    rw [DerivedType.ancestors_of_base? (show tile.base? = some square from rfl),
      DerivedType.ancestors_of_base?_none (show square.base? = none from rfl)]
  have ofTile (components : Address → Run Unit) :
      tile.finalizeArrayLevel environment tiles ⟨.buffer 0, 0⟩ components =
        tiles.forElements ⟨.buffer 0, 0⟩ (fun e => do
          Run.callFinalizer environment tile wipe (.scalar e)
          components e) := rfl
  have ofSquare (components : Address → Run Unit) :
      square.finalizeArrayLevel environment tiles ⟨.buffer 0, 0⟩ components = (do
        Run.callFinalizer environment square sweep
          (.array { tiles with base := some ⟨.buffer 0, 0⟩ })
        tiles.forElements ⟨.buffer 0, 0⟩ components) := rfl
  have last : square.endChain = pure () := rfl
  rw [chain, Run.walkChain, Run.walkChain, ofTile, ofSquare, last, bind_assoc] at alike
  simpa only [bind_pure_unit] using alike

end Descriptor

end DerivedTypes
