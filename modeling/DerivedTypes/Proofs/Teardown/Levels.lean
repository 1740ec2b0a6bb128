import DerivedTypes.Machine.TeardownSteps
import DerivedTypes.Proofs.Ownership.Holdings

namespace DerivedTypes

/-!
# Levels of a teardown

A teardown finalizes an instance, or all elements of an array, as instances of their own type and
tears down the components of this level; the parent type comes next.

* `DerivedType.levelSteps_of_parent`, `DerivedType.scalarSteps_of_parent`: one level after the
  other;
* `DerivedType.forall_mem_levelSteps`, `DerivedType.forall_mem_scalarSteps`: what holds of all steps
  but calls, and of the calls that the finalizers of the types involved lead to, holds of all steps
  of a teardown;
* `DerivedType.resolved_levelSteps`: no level lacks its parent.
-/

namespace TeardownStep

/-- The procedure that a step calls, with its argument. -/
def call? : TeardownStep → Option (Procedure × Argument)
  | finalizeScalar _ p _ a => some (p, .scalar a)
  | finalizeArray _ p _ view => some (p, .array view)
  | _ => none

/-- The step does not report a missing parent. -/
def Resolved : TeardownStep → Prop
  | orphan .. => False
  | _ => True

end TeardownStep

open TeardownStep

/-! ### Finalizers -/

/-- An elemental FINAL subroutine is a finalizer. -/
theorem Procedure.isFinalizer_of_isElementalFinal {p : Procedure} (h : p.isElementalFinal) :
    p.isFinalizer := by
  obtain ⟨_, bit⟩ : p.isElemental = true ∧ p.finalRanks.toNat.testBit 0 = true := by
    simpa [isElementalFinal] using h
  rw [isFinalizer, Bool.or_eq_true, bne_iff_ne]
  refine .inl fun none => ?_
  rw [none] at bit
  cases bit

/-- So is one for any rank. -/
theorem Procedure.isFinalizer_of_isFinalForRank {p : Procedure} {rank : Nat}
    (h : p.isFinalForRank rank) :
    p.isFinalizer := by
  rw [isFinalForRank, Bool.or_eq_true] at h
  rw [isFinalizer, Bool.or_eq_true, bne_iff_ne]
  refine h.symm.imp_left fun bit none => ?_
  rw [none] at bit
  simp at bit

namespace ArrayFinalizer

variable {rank : Nat} {elemental : Option Procedure} {procedures : List Procedure} {p : Procedure}

/-- A procedure that receives the whole array is one for its rank. -/
theorem mem_of_select_eq_whole (h : select rank elemental procedures = whole p) :
    p ∈ procedures ∧ p.isFinalForRank rank := by
  induction procedures generalizing elemental with
  | nil => cases elemental <;> cases h
  | cons q rest ih =>
    rw [select] at h
    split at h
    · exact (ih h).imp_left (List.mem_cons_of_mem _)
    · split at h
      · next forRank =>
        cases h
        exact ⟨List.mem_cons_self, forRank⟩
      · exact (ih h).imp_left (List.mem_cons_of_mem _)

/-- A procedure that receives one element after the other is elemental. -/
theorem mem_of_select_eq_each (h : select rank elemental procedures = each p) :
    elemental = some p ∨ p ∈ procedures ∧ p.isElementalFinal := by
  induction procedures generalizing elemental with
  | nil =>
    cases elemental with
    | none => cases h
    | some q =>
      cases h
      exact .inl rfl
  | cons q rest ih =>
    rw [select] at h
    split at h
    · next here =>
      rcases ih h with same | later
      · cases same
        exact .inr ⟨List.mem_cons_self, here⟩
      · exact .inr (later.imp_left (List.mem_cons_of_mem _))
    · split at h
      · cases h
      · exact (ih h).imp_right (.imp_left (List.mem_cons_of_mem _))

end ArrayFinalizer

namespace DerivedType

/-- A property of steps holds of the calls that the finalizers of a type lead to. -/
def CallsSatisfy (context : ExecutionContext) (Q : TeardownStep → Prop) (ty : DerivedType) : Prop :=
  ∀ p ∈ ty.procedures, p.isFinalizer → ∀ entry, p.code.entry? context = some entry →
    (∀ a, Q (.finalizeScalar ty p entry a)) ∧ ∀ view, Q (.finalizeArray ty p entry view)

variable {context : ExecutionContext} {Q : TeardownStep → Prop} {ty : DerivedType} {finalize : Bool}

/-- What holds of the call of every finalizer on an array holds of the one that is selected. -/
theorem forall_mem_wholeSteps {d : Descriptor} {data : Address}
    (calls : finalize = true → ∀ p ∈ ty.procedures, p.isFinalizer → ∀ entry,
      p.code.entry? context = some entry →
      Q (.finalizeArray ty p entry { d with base := some data }))
    (rank : Nat) :
    ∀ step ∈ (ty.arrayFinalizer rank finalize).wholeSteps context ty d data, Q step := by
  intro step mem
  cases selected : ty.arrayFinalizer rank finalize with
  | whole p =>
    rw [selected, ArrayFinalizer.wholeSteps, Option.mem_toList, Option.map_eq_some_iff] at mem
    obtain ⟨entry, there, rfl⟩ := mem
    rw [arrayFinalizer] at selected
    split at selected
    · next asked =>
      obtain ⟨member, forRank⟩ := ArrayFinalizer.mem_of_select_eq_whole selected
      exact calls (Bool.and_eq_true_iff.mp asked).1 p member
        (Procedure.isFinalizer_of_isFinalForRank forRank)
        entry there
    · cases selected
  | none =>
    rw [selected] at mem
    cases mem
  | each p =>
    rw [selected] at mem
    cases mem

/-- What holds of the call of every finalizer on an element holds of the one that is selected. -/
theorem forall_mem_elementSteps {e : Address}
    (calls : finalize = true → ∀ p ∈ ty.procedures, p.isFinalizer → ∀ entry,
      p.code.entry? context = some entry → Q (.finalizeScalar ty p entry e))
    (rank : Nat) :
    ∀ step ∈ (ty.arrayFinalizer rank finalize).elementSteps context ty e, Q step := by
  intro step mem
  cases selected : ty.arrayFinalizer rank finalize with
  | each p =>
    rw [selected, ArrayFinalizer.elementSteps, Option.mem_toList, Option.map_eq_some_iff] at mem
    obtain ⟨entry, there, rfl⟩ := mem
    rw [arrayFinalizer] at selected
    split at selected
    · next asked =>
      obtain ⟨member, elemental⟩ :=
        (ArrayFinalizer.mem_of_select_eq_each selected).resolve_left (by simp)
      exact calls (Bool.and_eq_true_iff.mp asked).1 p member
        (Procedure.isFinalizer_of_isElementalFinal elemental)
        entry there
    · cases selected
  | none =>
    rw [selected] at mem
    cases mem
  | whole p =>
    rw [selected] at mem
    cases mem

/-- What holds of the call of every finalizer on an instance holds of those of the elemental
    ones. -/
theorem forall_mem_finalizeSteps {a : Address}
    (calls : finalize = true → ∀ p ∈ ty.procedures, p.isFinalizer → ∀ entry,
      p.code.entry? context = some entry → Q (.finalizeScalar ty p entry a)) :
      ∀ step ∈ ty.finalizeSteps context a finalize, Q step := by
  intro step mem
  rw [finalizeSteps] at mem
  split at mem
  · next asked =>
    obtain ⟨p, member, mapped⟩ := List.mem_filterMap.mp mem
    obtain ⟨entry, there, rfl⟩ := Option.map_eq_some_iff.mp mapped
    obtain ⟨member, elemental⟩ := List.mem_filter.mp member
    exact calls (Bool.and_eq_true_iff.mp asked).1 p member
      (Procedure.isFinalizer_of_isElementalFinal elemental)
      entry there
  · cases mem

end DerivedType

/-! ### Components -/

namespace Component

variable {context : ExecutionContext} {ty : DerivedType} {c : Component} {a : Address}
  {finalize : Bool}

/-- A parent field is torn down as the parent. -/
theorem teardownSteps_of_isParent (parent : c.isParent = true) :
    c.teardownSteps context ty a finalize = [] := if_pos parent

/-- A descriptor component is released. -/
theorem teardownSteps_of_isDescriptor (own : c.isParent = false) (slot : c.isDescriptor = true) :
    c.teardownSteps context ty a finalize = [.release ty c (a + c.offset.toNat) finalize] := by
  rw [teardownSteps, if_neg (by simp [own]), if_pos slot]

/-- The elements of an embedded component are torn down level by level. -/
theorem teardownSteps_of_embedded {shape : Descriptor} {nested : DerivedType}
    (own : c.isParent = false) (embedded : c.embedded? = some (shape, nested)) :
    c.teardownSteps context ty a finalize =
      nested.levelSteps context shape (a + c.offset.toNat)
        (finalize && !shape.isFinalizationSuppressed) := by
  obtain ⟨plain, static, named⟩ := embedded?_eq_some_iff.mp embedded
  rw [teardownSteps, if_neg (by simp [own]), if_neg (by simp [plain]), static]
  dsimp only
  rw [Descriptor.arraySteps, named]

/-- For other components there is nothing to do. -/
theorem teardownSteps_of_plain (plain : c.isDescriptor = false) (none : c.embedded? = none) :
    c.teardownSteps context ty a finalize = [] := by
  by_cases parent : c.isParent
  · exact teardownSteps_of_isParent parent
  · rw [teardownSteps, if_neg parent, if_neg (by simp [plain])]
    cases static : c.static? with
    | none => rfl
    | some shape =>
      dsimp only
      rw [Descriptor.arraySteps, derivedType?_of_plain plain none static]

end Component

/-! ### Levels -/

namespace DerivedType

variable {context : ExecutionContext} {ty parent : DerivedType}

/-- The parent of an extended type, and the field that holds it. -/
theorem ParentFirst.exists_parent (h : ty.ParentFirst) (extended : ty.isExtension = true) :
    ∃ c rest shape parent, ty.components = c :: rest ∧ c.isParent = true ∧ c.offset = 0 ∧
      c.embedded? = some (shape, parent) ∧ shape.elementCount = 1 ∧ ty.parent = .ok parent := by
  cases components : ty.components with
  | nil =>
    rw [isExtension, components] at extended
    cases extended
  | cons c rest =>
    rw [isExtension, components] at extended
    have first : ty.components.head? = some c := by rw [components, List.head?_cons]
    obtain ⟨offset, shape, parent, embedded, one⟩ := h.embedded c first extended
    refine ⟨c, rest, shape, parent, rfl, extended, offset, embedded, one, ?_⟩
    rw [parent_eq_ok_iff, first, Option.bind_some, Component.derivedType?_of_embedded? embedded]

/-- The parent of an extended type is one of the types inside it. -/
theorem ParentFirst.exists_inside (h : ty.ParentFirst) (extended : ty.isExtension = true) :
    ∃ parent, ty.parent = .ok parent ∧ ∀ ⦃P⦄, ty.Throughout P → parent.Throughout P := by
  obtain ⟨c, rest, shape, parent, components, _, _, embedded, _, named⟩ := h.exists_parent extended
  have there : c ∈ ty.components := by rw [components]; exact List.mem_cons_self
  exact ⟨parent, named, fun _ throughout => throughout.of_embedded there embedded⟩

/-- A type without parent fields. -/
theorem ParentFirst.of_plain (plain : ∀ c ∈ ty.components, c.isParent = false) :
    ty.ParentFirst where
  onlyFirst := fun c mem => plain c (List.mem_of_mem_tail mem)
  embedded := fun c first parent => by
    rw [plain c (List.mem_of_mem_head? first)] at parent
    cases parent

/-- Without a parent, no component is a parent field. -/
theorem exists_not_parent_of_not_extension (plain : ty.isExtension = false) (h : ty.ParentFirst) :
    ∀ c ∈ ty.components, c.isParent = false := by
  intro c mem
  cases components : ty.components with
  | nil =>
    rw [components] at mem
    cases mem
  | cons first rest =>
    rw [components] at mem
    rcases List.mem_cons.mp mem with rfl | mem
    · rw [isExtension, components] at plain
      exact plain
    · exact h.onlyFirst c (by rw [components]; exact mem)

/-- A type that is no extension has no base. -/
theorem base?_of_not_extension (plain : ty.isExtension = false) : ty.base? = none := by
  rw [isExtension] at plain
  cases first : ty.components.head? with
  | none => rw [base?, first, Option.filter_none, Option.bind_none]
  | some c =>
    rw [first, Option.any_some] at plain
    simp [base?, first, plain]

/-- The level of a type, and those of its parent. -/
theorem levelSteps_of_parent (extended : ty.isExtension = true) (named : ty.parent = .ok parent)
    (d : Descriptor) (data : Address) (finalize : Bool) :
    ty.levelSteps context d data finalize =
      (ty.arrayFinalizer d.rank.toNat finalize).wholeSteps context ty d data ++
      ((d.elementAddresses data).flatMap fun e =>
        (ty.arrayFinalizer d.rank.toNat finalize).elementSteps context ty e ++
          ty.componentSteps context e finalize) ++
      .enterParent ty parent :: parent.levelSteps context d data finalize := by
  rw [levelSteps, if_pos extended]
  split
  · next parent' named' =>
    obtain rfl := Except.ok.inj (named.symm.trans named')
    rfl
  · next link missing =>
    rw [named] at missing
    cases missing

/-- The level of a type that extends no other is the only one. -/
theorem levelSteps_of_not_extension (plain : ty.isExtension = false) (d : Descriptor)
    (data : Address) (finalize : Bool) :
    ty.levelSteps context d data finalize =
      (ty.arrayFinalizer d.rank.toNat finalize).wholeSteps context ty d data ++
      (d.elementAddresses data).flatMap fun e =>
        (ty.arrayFinalizer d.rank.toNat finalize).elementSteps context ty e ++
          ty.componentSteps context e finalize := by
  rw [levelSteps, if_neg (by simp [plain]), List.append_nil]

/-- The level of a type that lacks its parent is the last one. -/
theorem levelSteps_of_orphan {link : MissingLink} (extended : ty.isExtension = true)
    (missing : ty.parent = .error link) (d : Descriptor) (data : Address) (finalize : Bool) :
    ty.levelSteps context d data finalize =
      (ty.arrayFinalizer d.rank.toNat finalize).wholeSteps context ty d data ++
      ((d.elementAddresses data).flatMap fun e =>
        (ty.arrayFinalizer d.rank.toNat finalize).elementSteps context ty e ++
          ty.componentSteps context e finalize) ++
      [.orphan ty link] := by
  rw [levelSteps, if_pos extended]
  split
  · next parent named =>
    rw [missing] at named
    cases named
  · next link' missing' =>
    obtain rfl := Except.error.inj (missing.symm.trans missing')
    rfl

/-- An instance as one of its own type, and as one of the parent. -/
theorem scalarSteps_of_parent (extended : ty.isExtension = true) (named : ty.parent = .ok parent)
    (a : Address) (finalize : Bool) :
    ty.scalarSteps context a finalize =
      ty.finalizeSteps context a finalize ++ ty.componentSteps context a finalize ++
        .enterParent ty parent :: parent.scalarSteps context a finalize := by
  rw [scalarSteps, if_pos extended]
  split
  · next parent' named' =>
    obtain rfl := Except.ok.inj (named.symm.trans named')
    rfl
  · next link missing =>
    rw [named] at missing
    cases missing

/-- An instance of a type that extends no other. -/
theorem scalarSteps_of_not_extension (plain : ty.isExtension = false) (a : Address)
    (finalize : Bool) :
    ty.scalarSteps context a finalize =
      ty.finalizeSteps context a finalize ++ ty.componentSteps context a finalize := by
  rw [scalarSteps, if_neg (by simp [plain]), List.append_nil]

/-- An instance of a type that lacks its parent. -/
theorem scalarSteps_of_orphan {link : MissingLink} (extended : ty.isExtension = true)
    (missing : ty.parent = .error link) (a : Address) (finalize : Bool) :
    ty.scalarSteps context a finalize =
      ty.finalizeSteps context a finalize ++ ty.componentSteps context a finalize ++
      [.orphan ty link] := by
  rw [scalarSteps, if_pos extended]
  split
  · next parent named =>
    rw [missing] at named
    cases named
  · next link' missing' =>
    obtain rfl := Except.error.inj (missing.symm.trans missing')
    rfl

/-! ### All steps -/

variable {Q : TeardownStep → Prop}

mutual

/-- What holds of all steps but calls, and of the calls of finalizers, holds of the steps of
    components. -/
theorem forall_mem_componentSteps {ty : DerivedType} {finalize : Bool}
    (others : ∀ step : TeardownStep, step.Resolved → step.call? = none → Q step)
    (sound : ty.Throughout TeardownSound)
    (calls : finalize = true → ty.Throughout (CallsSatisfy context Q)) (a : Address) :
    ∀ step ∈ ty.componentSteps context a finalize, Q step := by
  intro step mem
  rw [componentSteps_eq] at mem
  rcases List.mem_cons.mp mem with rfl | mem
  · exact others _ trivial rfl
  · obtain ⟨c, there, mem⟩ := List.mem_flatMap.mp mem
    by_cases parent : c.isParent
    · rw [Component.teardownSteps_of_isParent parent] at mem
      cases mem
    · have own : c.isParent = false := by simpa using parent
      obtain slot | ⟨shape, nested, embedded⟩ | ⟨plain, none⟩ := c.parts_cases
      · rw [Component.teardownSteps_of_isDescriptor own slot] at mem
        obtain rfl := List.mem_singleton.mp mem
        exact others _ trivial rfl
      · have := sizeOf_embedded there embedded
        rw [Component.teardownSteps_of_embedded own embedded] at mem
        refine forall_mem_levelSteps others (sound.of_embedded there embedded)
          (fun asked => ?_) _ _ step mem
        exact (calls (Bool.and_eq_true_iff.mp asked).1).of_embedded there embedded
      · rw [Component.teardownSteps_of_plain plain none] at mem
        cases mem
termination_by 2 * sizeOf ty

/-- What holds of all steps but calls, and of the calls of finalizers, holds of the steps of all
    levels of an array. -/
theorem forall_mem_levelSteps {ty : DerivedType} {finalize : Bool}
    (others : ∀ step : TeardownStep, step.Resolved → step.call? = none → Q step)
    (sound : ty.Throughout TeardownSound)
    (calls : finalize = true → ty.Throughout (CallsSatisfy context Q))
    (d : Descriptor) (data : Address) :
    ∀ step ∈ ty.levelSteps context d data finalize, Q step := by
  -- This level, and then the parent level.
  have here : ∀ step ∈ (ty.arrayFinalizer d.rank.toNat finalize).wholeSteps context ty d data ++
      (d.elementAddresses data).flatMap fun e =>
        (ty.arrayFinalizer d.rank.toNat finalize).elementSteps context ty e ++
          ty.componentSteps context e finalize, Q step := by
    have own := fun asked => (calls asked).own
    refine List.forall_mem_append.mpr ⟨forall_mem_wholeSteps (fun asked p there final entry code =>
      (own asked p there final entry code).2 _) _, fun step mem => ?_⟩
    obtain ⟨e, _, mem⟩ := List.mem_flatMap.mp mem
    exact List.forall_mem_append.mpr ⟨forall_mem_elementSteps (fun asked p there final entry code =>
      (own asked p there final entry code).1 e) _,
      forall_mem_componentSteps others sound calls e⟩ step mem
  cases extended : ty.isExtension with
  | false =>
    rw [levelSteps_of_not_extension extended]
    exact here
  | true =>
    obtain ⟨parent, named, inherited⟩ := sound.own.parentFirst.exists_inside extended
    have := sizeOf_parent named
    rw [levelSteps_of_parent extended named]
    refine List.forall_mem_append.mpr ⟨here, List.forall_mem_cons.mpr ⟨others _ trivial rfl, ?_⟩⟩
    exact forall_mem_levelSteps others (inherited sound) (fun asked =>
      inherited (calls asked)) d data
termination_by 2 * sizeOf ty + 1

end

/-- What holds of all steps but calls, and of the calls of finalizers, holds of all steps for an
    instance. -/
theorem forall_mem_scalarSteps {ty : DerivedType} {finalize : Bool}
    (others : ∀ step : TeardownStep, step.Resolved → step.call? = none → Q step)
    (sound : ty.Throughout TeardownSound)
    (calls : finalize = true → ty.Throughout (CallsSatisfy context Q)) (a : Address) :
    ∀ step ∈ ty.scalarSteps context a finalize, Q step := by
  have here : ∀ step ∈ ty.finalizeSteps context a finalize ++ ty.componentSteps context a finalize,
      Q step :=
    List.forall_mem_append.mpr ⟨forall_mem_finalizeSteps fun asked p there final entry code =>
      ((calls asked).own p there final entry code).1 a,
      forall_mem_componentSteps others sound calls a⟩
  cases extended : ty.isExtension with
  | false =>
    rw [scalarSteps_of_not_extension extended]
    exact here
  | true =>
    obtain ⟨parent, named, inherited⟩ := sound.own.parentFirst.exists_inside extended
    have := sizeOf_parent named
    rw [scalarSteps_of_parent extended named]
    refine List.forall_mem_append.mpr ⟨here, List.forall_mem_cons.mpr ⟨others _ trivial rfl, ?_⟩⟩
    exact forall_mem_scalarSteps others (inherited sound) (fun asked => inherited (calls asked)) a
termination_by sizeOf ty

/-- Calls never lack a parent. -/
theorem callsSatisfy_resolved (context : ExecutionContext) (ty : DerivedType) :
    ty.CallsSatisfy context Resolved :=
  fun _ _ _ _ _ => ⟨fun _ => trivial, fun _ => trivial⟩

/-- No component lacks its parent. -/
theorem resolved_componentSteps (context : ExecutionContext) (sound : ty.Throughout TeardownSound)
    (a : Address) (finalize : Bool) :
    ∀ step ∈ ty.componentSteps context a finalize, step.Resolved :=
  forall_mem_componentSteps (fun _ resolved _ => resolved) sound
    (fun _ => sound.imp fun ty _ => callsSatisfy_resolved context ty) a

/-- No level of an array lacks its parent. -/
theorem resolved_levelSteps (context : ExecutionContext) (sound : ty.Throughout TeardownSound)
    (d : Descriptor) (data : Address) (finalize : Bool) :
    ∀ step ∈ ty.levelSteps context d data finalize, step.Resolved :=
  forall_mem_levelSteps (fun _ resolved _ => resolved) sound
    (fun _ => sound.imp fun ty _ => callsSatisfy_resolved context ty) d data

/-- No type of an instance lacks its parent. -/
theorem resolved_scalarSteps (context : ExecutionContext) (sound : ty.Throughout TeardownSound)
    (a : Address) (finalize : Bool) : ∀ step ∈ ty.scalarSteps context a finalize, step.Resolved :=
  forall_mem_scalarSteps (fun _ resolved _ => resolved) sound
    (fun _ => sound.imp fun ty _ => callsSatisfy_resolved context ty) a

end DerivedType

end DerivedTypes
