import DerivedTypes.Proofs.Finalization.ArrayLevels

namespace DerivedTypes

/-!
# The shortcut for finalizers

A teardown looks for finalizers only in types that are finalizable, which is one question about the
procedures of a type: does any of them finalize some rank? Which finalizers are called depends on
other questions: is a procedure called on single elements, and is it for arrays of a rank? The
shortcut is sound because the first question is the weakest.

* `DerivedType.isFinalizable_iff_exists_rank`: a type is finalizable if and only if a procedure of
  it is for some rank;
* `Guarded`: the teardown with another question in place of the shortcut, or with none. The shortcut
  is the guard `DerivedType.isFinalizable`, and no guard at all is the one that lets every type
  pass;
* `Guarded.destroyScalar_eq_of_admits`, `Guarded.destroyElements_eq_of_admits`: as long as
  finalizable types pass, the teardown is the same;
* `DerivedType.isFinalizable_loses_nothing`: so it is the same without the shortcut.
-/

/-! ### Finalizable types -/

/-- A mask that is not zero has a bit for some rank. -/
theorem exists_testBit_of_ne_zero {mask : UInt32} (ne : mask ≠ 0) :
    ∃ r : UInt32, mask.toNat.testBit r.toNat := by
  have ne : mask.toNat ≠ 0 := fun zero => ne (UInt32.toNat_inj.mp zero)
  obtain ⟨r, set⟩ := Nat.exists_testBit_of_ne_zero ne
  have small : r < 32 := by
    by_contra large
    have lt : mask.toNat < 2 ^ r :=
      Nat.lt_of_lt_of_le mask.toNat_lt (Nat.pow_le_pow_right (by decide) (by omega))
    rw [Nat.testBit_lt_two_pow lt] at set
    cases set
  refine ⟨.ofNat r, ?_⟩
  rwa [UInt32.toNat_ofNat_of_lt' (Nat.lt_trans small (by decide))]

/-- A procedure is a finalizer if and only if it finalizes arrays of some rank. -/
theorem Procedure.isFinalizer_iff_exists_rank (p : Procedure) :
    p.isFinalizer ↔ ∃ r : UInt32, p.isFinalForRank r.toNat := by
  constructor
  · intro finalizer
    rcases Bool.or_eq_true_iff.mp finalizer with mask | assumed
    · obtain ⟨r, set⟩ := exists_testBit_of_ne_zero (bne_iff_ne.mp mask)
      exact ⟨r, Bool.or_eq_true_iff.mpr (.inr set)⟩
    · exact ⟨0, Bool.or_eq_true_iff.mpr (.inl assumed)⟩
  · rintro ⟨r, forRank⟩
    exact isFinalizer_of_isFinalForRank forRank

namespace DerivedType

/-- A type is finalizable if and only if one of its procedures finalizes arrays of some rank. -/
theorem isFinalizable_iff_exists_rank (ty : DerivedType) :
    ty.isFinalizable ↔ ∃ p ∈ ty.procedures, ∃ r : UInt32, p.isFinalForRank r.toNat := by
  simp only [isFinalizable, List.any_eq_true, Procedure.isFinalizer_iff_exists_rank]

end DerivedType

/-! ### Teardown with another guard -/

namespace Guarded

variable (guard : DerivedType → Bool)

/-- How an array is finalized at the level of a type, if finalizers are looked for where `guard`
    says so. -/
def arrayFinalizer (ty : DerivedType) (rank : Nat) (finalize : Bool) : ArrayFinalizer :=
  if finalize && guard ty then .select rank none ty.procedures else .none

/-- Calls of the elemental finalizers of a type on one instance, if they are looked for where
    `guard` says so. -/
def finalizeSteps (context : ExecutionContext) (ty : DerivedType) (a : Address) (finalize : Bool) :
    List TeardownStep :=
  if finalize && guard ty then
    (ty.procedures.filter (·.isElementalFinal)).filterMap fun p =>
      (p.code.entry? context).map (.finalizeScalar ty p · a)
  else []

mutual

/-- The steps of `DerivedType.componentSteps`, with `guard` in place of the shortcut at every
    level. -/
def componentSteps (context : ExecutionContext) (ty : DerivedType) (a : Address) (finalize : Bool) :
    List TeardownStep :=
  .enterComponents ty :: ty.components.flatMap fun c =>
    if c.isParent then []
    else if c.isDescriptor then [.release ty c (a + c.offset.toNat) finalize]
    else
      match _h : c.embedded? with
      | none => []
      | some (shape, nested) =>
        levelSteps context nested shape (a + c.offset.toNat)
          (finalize && !shape.isFinalizationSuppressed)
termination_by 2 * sizeOf ty
decreasing_by
  have := DerivedType.sizeOf_embedded (by assumption) _h
  omega

/-- The steps of `DerivedType.levelSteps`, with `guard` in place of the shortcut at every level. -/
def levelSteps (context : ExecutionContext) (ty : DerivedType) (d : Descriptor) (data : Address)
    (finalize : Bool) :
    List TeardownStep :=
  let finalizer := arrayFinalizer guard ty d.rank.toNat finalize
  finalizer.wholeSteps context ty d data ++
  ((d.elementAddresses data).flatMap fun element =>
    finalizer.elementSteps context ty element ++ componentSteps context ty element finalize) ++
  if ty.isExtension then
    match _h : ty.parent with
    | .ok parent => .enterParent ty parent :: levelSteps context parent d data finalize
    | .error link => [.orphan ty link]
  else []
termination_by 2 * sizeOf ty + 1
decreasing_by
  · omega
  · have := DerivedType.sizeOf_parent _h
    omega

end

/-- The steps of `DerivedType.scalarSteps`, with `guard` in place of the shortcut at every level. -/
def scalarSteps (context : ExecutionContext) (ty : DerivedType) (a : Address) (finalize : Bool) :
    List TeardownStep :=
  finalizeSteps guard context ty a finalize ++
  componentSteps guard context ty a finalize ++
  if ty.isExtension then
    match _h : ty.parent with
    | .ok parent => .enterParent ty parent :: scalarSteps context parent a finalize
    | .error link => [.orphan ty link]
  else []
termination_by sizeOf ty
decreasing_by exact DerivedType.sizeOf_parent _h

/-- The steps of `Descriptor.arraySteps`, with `guard` in place of the shortcut at every level. -/
def arraySteps (context : ExecutionContext) (d : Descriptor) (data : Address) (finalize : Bool) :
    List TeardownStep :=
  match d.derivedType? with
  | none => []
  | some ty => levelSteps guard context ty d data (finalize && !d.isFinalizationSuppressed)

/-- Runs one step. What a release leads to is torn down with `guard` as well. -/
def run (env : Environment) : (depth : Nat) → TeardownStep → Run Unit
  | depth, .release ty component a finalize => do
    match ← Run.readOwner a with
    | none => pure ()
    | some (d, data) =>
      Run.trace env (.release ty component)
      match depth with
      | 0 => Run.undefined .endlessOwnership
      | depth + 1 => (arraySteps guard env.context d data finalize).forM (run env depth)
      Run.freeStorage d data
      Run.clearBase a
  | depth, step => step.run env depth

/-- Tears down the instance at an address. -/
def destroyScalar (env : Environment) (ty : DerivedType) (a : Address) (finalize : Bool) :
    Run Unit := do
  (scalarSteps guard env.context ty a finalize).forM (run guard env (← Run.ownershipDepth))

/-- Tears down every described element of storage; null storage has none. -/
def destroyElements (env : Environment) (d : Descriptor) (data : Option Address) (finalize : Bool) :
    Run Unit :=
  match data with
  | none => pure ()
  | some data => do
    (arraySteps guard env.context d data finalize).forM (run guard env (← Run.ownershipDepth))

/-- Every finalizable type passes. -/
def Admits : Prop := ∀ ty : DerivedType, ty.isFinalizable → guard ty

variable {guard}

/-- Where a guard stops the search, or the shortcut does, there is nothing to be found. -/
theorem arrayFinalizer_eq (admits : Admits guard) (ty : DerivedType) (rank : Nat)
    (finalize : Bool) :
    arrayFinalizer guard ty rank finalize = ty.arrayFinalizer rank finalize := by
  unfold arrayFinalizer DerivedType.arrayFinalizer
  cases finalize with
  | false => rfl
  | true =>
    cases finalizable : ty.isFinalizable with
    | true => rw [admits ty finalizable]
    | false =>
      obtain ⟨noWhole, noElemental⟩ := ty.find?_of_not_isFinalizable finalizable rank
      have nothing : ArrayFinalizer.select rank none ty.procedures = .none := by
        rw [DerivedType.wholeFinalizer?] at noWhole
        rw [DerivedType.lastElementalFinalizer?] at noElemental
        rw [ArrayFinalizer.select_eq, noWhole, noElemental]
        rfl
      simp [nothing]

/-- The guard does not show in the finalization of an instance. -/
theorem finalizeSteps_eq (admits : Admits guard) (context : ExecutionContext) (ty : DerivedType)
    (a : Address) (finalize : Bool) :
    finalizeSteps guard context ty a finalize = ty.finalizeSteps context a finalize := by
  unfold finalizeSteps DerivedType.finalizeSteps
  cases finalize with
  | false => rfl
  | true =>
    cases finalizable : ty.isFinalizable with
    | true => rw [admits ty finalizable]
    | false => simp [DerivedType.filter_isElementalFinal_of_not_isFinalizable ty finalizable]

-- A guard is asked at each level of a type and of the types inside it, so the steps agree by
-- recursion on types.
mutual

/-- It does not show in the teardown of the components. -/
theorem componentSteps_eq (admits : Admits guard) (context : ExecutionContext) (ty : DerivedType)
    (a : Address) (finalize : Bool) :
    componentSteps guard context ty a finalize = ty.componentSteps context a finalize := by
  rw [componentSteps, DerivedType.componentSteps]
  congr 1
  refine List.flatMap_congr fun c mem => ?_
  congr 2
  have inside (shape : Descriptor) (nested : DerivedType)
      (embedded : c.embedded? = some (shape, nested)) :=
    have := DerivedType.sizeOf_embedded mem embedded
    levelSteps_eq admits context nested shape (a + c.offset.toNat)
      (finalize && !shape.isFinalizationSuppressed)
  grind
termination_by 2 * sizeOf ty

/-- It does not show in the teardown of a level. -/
theorem levelSteps_eq (admits : Admits guard) (context : ExecutionContext) (ty : DerivedType)
    (d : Descriptor) (data : Address) (finalize : Bool) :
    levelSteps guard context ty d data finalize = ty.levelSteps context d data finalize := by
  rw [levelSteps, DerivedType.levelSteps]
  simp only [arrayFinalizer_eq admits, componentSteps_eq admits context ty]
  congr 2
  have above (parent : DerivedType) (extended : ty.parent = .ok parent) :=
    have := DerivedType.sizeOf_parent extended
    levelSteps_eq admits context parent d data finalize
  grind
termination_by 2 * sizeOf ty + 1

end

/-- It does not show in the teardown of an instance. -/
theorem scalarSteps_eq (admits : Admits guard) (context : ExecutionContext) (ty : DerivedType)
    (a : Address) (finalize : Bool) :
    scalarSteps guard context ty a finalize = ty.scalarSteps context a finalize := by
  rw [scalarSteps, DerivedType.scalarSteps, finalizeSteps_eq admits, componentSteps_eq admits]
  congr 2
  have above (parent : DerivedType) (extended : ty.parent = .ok parent) :=
    have := DerivedType.sizeOf_parent extended
    scalarSteps_eq admits context parent a finalize
  grind
termination_by sizeOf ty

/-- It does not show in the teardown of an array. -/
theorem arraySteps_eq (admits : Admits guard) (context : ExecutionContext) (d : Descriptor)
    (data : Address) (finalize : Bool) :
    arraySteps guard context d data finalize = d.arraySteps context data finalize := by
  unfold arraySteps Descriptor.arraySteps
  cases d.derivedType? with
  | none => rfl
  | some ty => exact levelSteps_eq admits ..

/-- Each step does the same, however deep the releases inside it go. -/
theorem run_eq (admits : Admits guard) (env : Environment) (depth : Nat) (step : TeardownStep) :
    run guard env depth step = step.run env depth := by
  induction depth generalizing step with
  | zero =>
    cases step with
    | release ty c a finalize =>
      unfold run TeardownStep.run
      rfl
    | _ => rfl
  | succ depth ih =>
    cases step with
    | release ty c a finalize =>
      rw [run, TeardownStep.run]
      refine bind_congr fun owner => ?_
      cases owner with
      | none => rfl
      | some found =>
        obtain ⟨d, data⟩ := found
        dsimp only
        rw [d.forArraySteps_eq, arraySteps_eq admits, funext ih]
    | _ => rfl

/-- So the teardown of an instance is the same with and without the guard. -/
theorem destroyScalar_eq_of_admits (admits : Admits guard) (env : Environment) (ty : DerivedType)
    (a : Address) (finalize : Bool) :
    destroyScalar guard env ty a finalize = ty.destroyScalar env a finalize := by
  simp only [destroyScalar, DerivedType.destroyScalar_eq, scalarSteps_eq admits,
    funext (run_eq admits env _)]

/-- And so is the teardown of an array. -/
theorem destroyElements_eq_of_admits (admits : Admits guard) (env : Environment) (d : Descriptor)
    (data : Option Address) (finalize : Bool) :
    destroyElements guard env d data finalize = d.destroyElements env data finalize := by
  cases data with
  | none => rfl
  | some data =>
    simp only [destroyElements, Descriptor.destroyElements_eq, arraySteps_eq admits,
      funext (run_eq admits env _)]

end Guarded

/-- The shortcut loses no finalizer: a type is finalizable if and only if some procedure of it is
    for some rank, and both teardowns do the same on all memory, with the same events and the same
    result, if finalizers are looked for in every type. -/
theorem DerivedType.isFinalizable_loses_nothing :
    (∀ ty : DerivedType, ty.isFinalizable ↔ ∃ p ∈ ty.procedures, ∃ r : UInt32,
      p.isFinalForRank r.toNat) ∧
    ∀ env : Environment,
      (∀ (ty : DerivedType) a finalize,
        Guarded.destroyScalar (fun _ => true) env ty a finalize = ty.destroyScalar env a finalize) ∧
      ∀ (d : Descriptor) data finalize,
        Guarded.destroyElements (fun _ => true) env d data finalize =
        d.destroyElements env data finalize := by
  have all : Guarded.Admits fun _ => true := fun _ _ => rfl
  exact ⟨isFinalizable_iff_exists_rank, fun env =>
    ⟨Guarded.destroyScalar_eq_of_admits all env, Guarded.destroyElements_eq_of_admits all env⟩⟩

end DerivedTypes
