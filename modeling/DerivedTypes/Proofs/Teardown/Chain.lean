import DerivedTypes.Proofs.Teardown.Depth
import DerivedTypes.Proofs.Teardown.Levels

namespace DerivedTypes

/-!
# Teardown along the chain of extended types

A teardown goes from a type to the type that it extends by itself, and looks the parent up in the
table each time. The chain of these types is known beforehand, as `DerivedType.ancestors`, from
another look at the same field. Both agree, so a teardown is a walk along the chain: `Run.walkChain`
does one thing at every type, steps to the parent in between, and reports the last type if that
still extends one that its table does not name.

* `DerivedType.base?_eq`: the next type of the chain is the parent that a teardown finds;
* `DerivedType.walkChain_cons`: a walk follows the parents as a teardown does;
* `DerivedType.destroyScalar_walks_chain`: the teardown of an instance is a walk.
-/

/-! ### Walks -/

/-- The first link that a field lacks on the way to the type that it holds. -/
def Component.missingLink (c : Component) : MissingLink :=
  match c.static? with
  | none => .staticDescriptor
  | some shape => if shape.hasAddendum then .derivedType else .addendum

/-- The end of a chain. A type with a parent field is not supposed to be the last one. -/
def DerivedType.endChain (last : DerivedType) : Run Unit :=
  match last.components.head?.filter (·.isParent) with
  | none => pure ()
  | some c => Run.fatal (.missingParent last.name c.missingLink)

/-- Runs `level` at each type of a chain, and steps to the parent in between. -/
def Run.walkChain (env : Environment) (level : DerivedType → Run Unit) : List DerivedType → Run Unit
  | [] => pure ()
  | [last] => do
    level last
    last.endChain
  | ty :: parent :: rest => do
    level ty
    Run.trace env (.enterParent ty parent)
    walkChain env level (parent :: rest)

/-- Calls a finalizer of a type, if it has code for the context. -/
def Run.callFinalizer (env : Environment) (ty : DerivedType) (p : Procedure) (argument : Argument) :
    Run Unit :=
  match p.code.entry? env.context with
  | none => pure ()
  | some entry => do
    Run.trace env (.finalize ty p)
    let _ ← Run.call env p entry argument

/-- Calls the elemental finalizers of a type on one instance, in table order. -/
def DerivedType.finalizeScalar (env : Environment) (ty : DerivedType) (a : Address)
    (finalize : Bool) : Run Unit :=
  if finalize then
    (ty.procedures.filter (·.isElementalFinal)).forM fun p => Run.callFinalizer env ty p (.scalar a)
  else pure ()

/-- Walks that do alike at each type are alike. -/
theorem Run.Alike.walkChain {env : Environment} {level level' : DerivedType → Run Unit}
    (h : ∀ ty, Run.Alike (level ty) (level' ty)) (chain : List DerivedType) :
    Run.Alike (Run.walkChain env level chain) (Run.walkChain env level' chain) := by
  induction chain with
  | nil => exact .refl _
  | cons ty rest ih =>
    cases rest with
    | nil => exact .bind (h ty) fun _ => .refl _
    | cons parent rest => exact .bind (h ty) fun _ => .bind (.refl _) fun _ => ih

namespace DerivedType

/-! ### Parents -/

variable {ty parent : DerivedType} {link : MissingLink}

/-- Where a type has a parent field, the type that a teardown goes on with is the one in the
    chain. -/
theorem parent_eq_ok_iff_base? (extended : ty.isExtension = true) :
    ty.parent = .ok parent ↔ ty.base? = some parent := by
  rw [parent_eq_ok_iff, base?]
  rw [isExtension] at extended
  cases first : ty.components.head? with
  | none => rw [first] at extended; cases extended
  | some c =>
    rw [first, Option.any_some] at extended
    rw [Option.filter_some, if_pos extended]

/-- The next type of a chain is the parent that a teardown finds, where it looks for one. -/
theorem base?_eq (ty : DerivedType) :
    ty.base? = if ty.isExtension then ty.parent.toOption else none := by
  cases extended : ty.isExtension with
  | false => exact base?_of_not_extension extended
  | true =>
    rw [if_pos rfl]
    ext parent
    rw [← parent_eq_ok_iff_base? extended]
    cases ty.parent <;> simp [Except.toOption]

/-- Without a parent there is nothing to end. -/
theorem endChain_of_not_extension (plain : ty.isExtension = false) : ty.endChain = pure () := by
  rw [isExtension] at plain
  unfold endChain
  cases first : ty.components.head? with
  | none => rfl
  | some c =>
    rw [first, Option.any_some] at plain
    rw [Option.filter_some, if_neg (by simp [plain])]

/-- The report names the link that a teardown misses. -/
theorem endChain_of_orphan (extended : ty.isExtension = true) (missing : ty.parent = .error link) :
    ty.endChain = Run.fatal (.missingParent ty.name link) := by
  rw [isExtension] at extended
  rw [DerivedType.parent] at missing
  unfold endChain
  cases first : ty.components.head? with
  | none => rw [first] at extended; cases extended
  | some c =>
    rw [first, Option.any_some] at extended
    rw [first, Option.bind_some] at missing
    rw [Option.filter_some, if_pos extended]
    have same : c.missingLink = link := by
      unfold Component.missingLink
      cases static : c.static? with
      | none =>
        rw [static] at missing
        exact Except.error.inj missing
      | some shape =>
        rw [static] at missing
        cases there : shape.hasAddendum <;> cases named : shape.addendumType <;> simp_all
    dsimp only
    rw [same]

/-- A walk along the chain of a type goes on as a teardown does. -/
theorem walkChain_cons (env : Environment) (level : DerivedType → Run Unit) (ty : DerivedType) :
    Run.walkChain env level (ty :: ty.ancestors) = (do
      level ty
      if ty.isExtension then
        match ty.parent with
        | .ok parent => do
          Run.trace env (.enterParent ty parent)
          Run.walkChain env level (parent :: parent.ancestors)
        | .error link => Run.fatal (.missingParent ty.name link)) := by
  cases extended : ty.isExtension with
  | false =>
    rw [ancestors_of_base?_none (base?_of_not_extension extended), Run.walkChain,
      endChain_of_not_extension extended]
    rfl
  | true =>
    rw [if_pos rfl]
    cases named : ty.parent with
    | ok parent =>
      rw [ancestors_of_base? ((parent_eq_ok_iff_base? extended).mp named), Run.walkChain]
    | error link =>
      have none : ty.base? = none := by rw [base?_eq, if_pos extended, named, Except.toOption]
      rw [ancestors_of_base?_none none, Run.walkChain, endChain_of_orphan extended named]

/-! ### Instances -/

variable {env : Environment} {depth : Nat} {finalize : Bool} {a : Address}

/-- The step that calls a finalizer on one instance, if there is one, makes the call. -/
theorem forM_finalizeScalar (env : Environment) (depth : Nat) (ty : DerivedType) (p : Procedure)
    (a : Address) :
    ((p.code.entry? env.context).map (TeardownStep.finalizeScalar ty p · a)).toList.forM
      (TeardownStep.run env depth) = Run.callFinalizer env ty p (.scalar a) := by
  unfold Run.callFinalizer
  cases p.code.entry? env.context with
  | none => rfl
  | some entry => simp [TeardownStep.run]

/-- A type whose finalizers are not asked for has no elemental ones. -/
theorem filter_isElementalFinal_of_not_isFinalizable (ty : DerivedType)
    (not : ty.isFinalizable = false) :
    ty.procedures.filter (·.isElementalFinal) = [] := by
  rw [List.filter_eq_nil_iff]
  intro p mem elemental
  rw [isFinalizable, List.any_eq_false] at not
  exact not p mem (Procedure.isFinalizer_of_isElementalFinal elemental)

/-- The elemental finalizers are called one after the other. -/
theorem forM_finalizeSteps (env : Environment) (depth : Nat) (ty : DerivedType) (a : Address)
    (finalize : Bool) :
    (ty.finalizeSteps env.context a finalize).forM (TeardownStep.run env depth) =
      ty.finalizeScalar env a finalize := by
  have calls : ((ty.procedures.filter (·.isElementalFinal)).filterMap fun p =>
      (p.code.entry? env.context).map (TeardownStep.finalizeScalar ty p · a)).forM
        (TeardownStep.run env depth) =
      (ty.procedures.filter (·.isElementalFinal)).forM fun p =>
        Run.callFinalizer env ty p (.scalar a) := by
    rw [List.filterMap_eq_flatMap_toList, List.forM_eq_forM, Run.forM_flatMap]
    simp only [← List.forM_eq_forM, forM_finalizeScalar]
  unfold finalizeSteps DerivedType.finalizeScalar
  cases finalize with
  | false => rfl
  | true =>
    rw [Bool.true_and, if_pos rfl]
    cases finalizable : ty.isFinalizable with
    | true => exact calls
    | false =>
      rw [filter_isElementalFinal_of_not_isFinalizable ty finalizable]
      rfl

/-- One level after the other, with one count for all of them. -/
theorem forScalarSteps_walks_chain (env : Environment) (depth : Nat) (ty : DerivedType)
    (a : Address) (finalize : Bool) :
    ty.forScalarSteps env.context (TeardownStep.run env depth) a finalize =
      Run.walkChain env (fun level => do
        level.finalizeScalar env a finalize
        level.forComponentSteps env.context (TeardownStep.run env depth) a finalize)
          (ty :: ty.ancestors) := by
  rw [walkChain_cons, forScalarSteps, forM_finalizeSteps, bind_assoc]
  congr 1
  funext _
  congr 1
  funext _
  split
  · split
    · next parent named =>
      have := sizeOf_parent named
      rw [forScalarSteps_walks_chain env depth parent, TeardownStep.run, named]
    · next link missing => rw [TeardownStep.run, missing]
  · rfl
termination_by sizeOf ty

/-- The teardown of an instance is a walk along the chain of the types that its type extends, most
    derived type first: at each type the elemental finalizers with code for the context are called,
    if finalization is asked for, and the components are torn down. This holds step by step for one
    count of releases, and for components that are torn down by an operation of their own wherever
    none gives up on its count. The type that follows another in the chain is the parent that a
    teardown finds in the table, so the walk ends at a type without a parent field, or with a report
    of the link that the field lacks. -/
theorem destroyScalar_walks_chain (env : Environment) (ty : DerivedType) (a : Address)
    (finalize : Bool) :
    (∀ depth, ty.forScalarSteps env.context (TeardownStep.run env depth) a finalize =
      Run.walkChain env (fun level => do
        level.finalizeScalar env a finalize
        level.forComponentSteps env.context (TeardownStep.run env depth) a finalize)
          (ty :: ty.ancestors)) ∧
    Run.Alike (ty.destroyScalar env a finalize)
      (Run.walkChain env (fun level => do
        level.finalizeScalar env a finalize
        level.destroyComponents env a finalize) (ty :: ty.ancestors)) ∧
    ∀ level : DerivedType, level.base? =
    if level.isExtension then level.parent.toOption else none := by
  refine ⟨fun depth => forScalarSteps_walks_chain env depth ty a finalize, fun M => ?_, base?_eq⟩
  show ty.forScalarSteps env.context (TeardownStep.run env M.memory.byteCount) a finalize M = _ ∨
    Run.GivesUp (ty.forScalarSteps env.context (TeardownStep.run env M.memory.byteCount) a finalize)
      M ∨ _
  rw [forScalarSteps_walks_chain]
  exact Run.Alike.walkChain (fun level => .bind (.refl _) fun _ =>
    level.forComponentSteps_alike env M.memory.byteCount a finalize) _ M

end DerivedType

end DerivedTypes
