import DerivedTypes.Proofs.Teardown.Levels

namespace DerivedTypes

/-!
# Finalizers from the outside in

An instance holds further instances: the elements embedded in its components, and itself as an
instance of the type that it extends. Finalizers are called for all of them, each one before those
for what it holds; nothing is said about instances of which neither holds the other.

* `DerivedType.subobjects`, `DerivedType.subobjectTree`: the instances that an instance holds,
  directly and at any depth;
* `Interleaves`: a list consists of two others, mixed;
* `OutsideIn`: calls that finalize some instances and all that these hold, each one before those for
  what it holds;
* `OutsideIn.perm`, `OutsideIn.exists_sublist`: there is one call for each finalizable instance, and
  it comes first;
* `OutsideIn.levels`: calls level by level, as an array is torn down, are such calls.
-/

/-! ### Interleavings -/

/-- The third list consists of the first two, mixed, with the order of each of them kept. -/
inductive Interleaves {α : Type} : List α → List α → List α → Prop
  | nil : Interleaves [] [] []
  | left {x : α} {xs ys zs : List α} (h : Interleaves xs ys zs) : Interleaves (x :: xs) ys (x :: zs)
  | right {y : α} {xs ys zs : List α} (h : Interleaves xs ys zs) :
      Interleaves xs (y :: ys) (y :: zs)

namespace Interleaves

variable {α : Type} {xs ys zs : List α}

/-- The first list may begin earlier. -/
theorem append_left (h : Interleaves xs ys zs) (ws : List α) :
    Interleaves (ws ++ xs) ys (ws ++ zs) := by
  induction ws with
  | nil => exact h
  | cons w rest ih => exact .left ih

/-- So may the second one. -/
theorem append_right (h : Interleaves xs ys zs) (ws : List α) :
    Interleaves xs (ws ++ ys) (ws ++ zs) := by
  induction ws with
  | nil => exact h
  | cons w rest ih => exact .right ih

/-- There need not be anything in the first list. -/
theorem of_nil_left (ys : List α) : Interleaves [] ys ys := by
  have whole := Interleaves.nil.append_right ys
  simpa using whole

/-- One list after the other. -/
theorem of_append (xs ys : List α) : Interleaves xs ys (xs ++ ys) := by
  have whole := (of_nil_left ys).append_left xs
  simpa using whole

/-- More of the second list at the end. -/
theorem append_end (h : Interleaves xs ys zs) (ws : List α) :
    Interleaves xs (ys ++ ws) (zs ++ ws) := by
  induction h with
  | nil => exact of_nil_left ws
  | left _ ih => exact .left ih
  | right _ ih => exact .right ih

/-- A mixture has the members of both lists. -/
theorem perm (h : Interleaves xs ys zs) : zs.Perm (xs ++ ys) := by
  induction h with
  | nil => exact .refl _
  | left _ ih => exact ih.cons _
  | right _ ih => exact (ih.cons _).trans List.perm_middle.symm

/-- The first list is found in order. -/
theorem sublist_left (h : Interleaves xs ys zs) : xs.Sublist zs := by
  induction h with
  | nil => exact .slnil
  | left _ ih => exact ih.cons_cons _
  | right _ ih => exact ih.cons _

/-- So is the second one. -/
theorem sublist_right (h : Interleaves xs ys zs) : ys.Sublist zs := by
  induction h with
  | nil => exact .slnil
  | left _ ih => exact ih.cons _
  | right _ ih => exact ih.cons_cons _

end Interleaves

/-! ### Subobjects -/

/-- The instances embedded in a component of the instance at an address. The field of the extended
    type holds no instance of its own: it is the instance as one of that type. -/
def Component.subobjects (c : Component) (instanceAddress : Address) :
    List (DerivedType × Address) :=
  if c.isParent then []
  else
    match c.embedded? with
    | none => []
    | some (shape, nested) =>
      (shape.elementAddresses (instanceAddress + c.offset.toNat)).map (nested, ·)

namespace Component

variable {c : Component} {a : Address}

/-- A parent field is no instance of its own. -/
theorem subobjects_of_isParent (parent : c.isParent = true) : c.subobjects a = [] := if_pos parent

/-- The elements of an embedded component are instances inside. -/
theorem subobjects_of_embedded {shape : Descriptor} {nested : DerivedType}
    (own : c.isParent = false) (embedded : c.embedded? = some (shape, nested)) :
    c.subobjects a = (shape.elementAddresses (a + c.offset.toNat)).map (nested, ·) := by
  rw [subobjects, if_neg (by simp [own]), embedded]

/-- All other components have no instances inside. -/
theorem subobjects_of_none (none : c.embedded? = none) : c.subobjects a = [] := by
  rw [subobjects, none]
  split <;> rfl

end Component

namespace DerivedType

/-- The instances directly inside the instance at an address: the embedded elements, and the same
    instance as one of the extended type. -/
def subobjects (ty : DerivedType) (a : Address) : List (DerivedType × Address) :=
  ty.components.flatMap (·.subobjects a) ++ ty.base?.toList.map (·, a)

/-- The types of the instances inside are smaller than the type. -/
theorem sizeOf_of_mem_subobjects {ty : DerivedType} {a : Address} {x : DerivedType × Address}
    (mem : x ∈ ty.subobjects a) : sizeOf x.1 < sizeOf ty := by
  rcases List.mem_append.mp mem with inComponent | base
  · obtain ⟨c, there, mem⟩ := List.mem_flatMap.mp inComponent
    by_cases parent : c.isParent
    · rw [Component.subobjects_of_isParent parent] at mem
      cases mem
    · cases embedded : c.embedded? with
      | none =>
        rw [Component.subobjects_of_none embedded] at mem
        cases mem
      | some inner =>
        rw [Component.subobjects_of_embedded (by simpa using parent) embedded] at mem
        obtain ⟨_, _, rfl⟩ := List.mem_map.mp mem
        exact sizeOf_embedded there embedded
  · obtain ⟨base, named, rfl⟩ := List.mem_map.mp base
    exact sizeOf_base (Option.mem_toList.mp named)

/-- The instance at an address and all instances inside it, at any depth. -/
def subobjectTree (ty : DerivedType) (a : Address) : List (DerivedType × Address) :=
  (ty, a) :: (ty.subobjects a).attach.flatMap fun x => x.val.1.subobjectTree x.val.2
termination_by sizeOf ty
decreasing_by exact sizeOf_of_mem_subobjects x.property

/-- An instance comes before all instances inside it. -/
theorem subobjectTree_eq (ty : DerivedType) (a : Address) :
    ty.subobjectTree a = (ty, a) :: (ty.subobjects a).flatMap fun x => x.1.subobjectTree x.2 := by
  have members := List.attach_map_subtype_val (ty.subobjects a)
  conv_rhs => rw [← members, List.flatMap_map]
  rw [subobjectTree]

/-- The call that finalizes the instance at an address as one of its own type, if the type has a
    finalizer. -/
def finalizerCalls (ty : DerivedType) (a : Address) : List (Procedure × Argument) :=
  (ty.procedures.find? (·.isFinalizer)).toList.map (·, .scalar a)

/-- The calls that finalize what lies inside the instance at an address, in some order. -/
def innerCalls (ty : DerivedType) (a : Address) : List (Procedure × Argument) :=
  (ty.subobjects a).flatMap fun x => (x.1.subobjectTree x.2).flatMap fun y => y.1.finalizerCalls y.2

end DerivedType

/-! ### Calls from the outside in -/

/-- The calls finalize some instances and everything inside these: the call for an instance comes
    before those for what it holds, and in between there may be calls for other instances. -/
inductive OutsideIn : List (DerivedType × Address) → List (Procedure × Argument) → Prop
  | nil : OutsideIn [] []
  | cons {ty : DerivedType} {a : Address} {others : List (DerivedType × Address)}
      {inner rest calls : List (Procedure × Argument)} (inside : OutsideIn (ty.subobjects a) inner)
      (outside : OutsideIn others rest)
      (mixed : Interleaves (ty.finalizerCalls a ++ inner) rest calls) :
      OutsideIn ((ty, a) :: others) calls

namespace OutsideIn

variable {xs ys : List (DerivedType × Address)} {calls others : List (Procedure × Argument)}

/-- There is one call for each instance that has a finalizer. -/
theorem perm (h : OutsideIn xs calls) :
    calls.Perm (xs.flatMap fun x => (x.1.subobjectTree x.2).flatMap fun y =>
      y.1.finalizerCalls y.2) := by
  induction h with
  | nil => exact .refl _
  | cons _ _ mixed inside outside =>
    rw [List.flatMap_cons, DerivedType.subobjectTree_eq, List.flatMap_cons, List.flatMap_assoc]
    exact mixed.perm.trans ((inside.append_left _).append outside)

/-- The call for an instance comes before all calls for what the instance holds. -/
theorem exists_sublist (h : OutsideIn xs calls) {y : DerivedType × Address}
    (mem : y ∈ xs.flatMap fun x => x.1.subobjectTree x.2) :
    ∃ inner, inner.Perm (y.1.innerCalls y.2) ∧ (y.1.finalizerCalls y.2 ++ inner).Sublist calls := by
  induction h with
  | nil => cases mem
  | cons inside _ mixed ih ih' =>
    rw [List.flatMap_cons, DerivedType.subobjectTree_eq, List.cons_append] at mem
    rcases List.mem_cons.mp mem with rfl | mem
    · exact ⟨_, inside.perm, mixed.sublist_left⟩
    · rcases List.mem_append.mp mem with deeper | beside
      · obtain ⟨inner, perm, sublist⟩ := ih deeper
        exact ⟨inner, perm, (sublist.trans (List.sublist_append_right ..)).trans mixed.sublist_left⟩
      · obtain ⟨inner, perm, sublist⟩ := ih' beside
        exact ⟨inner, perm, sublist.trans mixed.sublist_right⟩

/-- One instance, and then what it holds. -/
theorem singleton {ty : DerivedType} {a : Address} (inside : OutsideIn (ty.subobjects a) calls) :
    OutsideIn [(ty, a)] (ty.finalizerCalls a ++ calls) := by
  have mixed := Interleaves.of_append (ty.finalizerCalls a ++ calls) []
  rw [List.append_nil] at mixed
  exact .cons inside .nil mixed

/-- Some instances after others. -/
theorem append (h : OutsideIn xs calls) (h' : OutsideIn ys others) :
    OutsideIn (xs ++ ys) (calls ++ others) := by
  induction h with
  | nil => exact h'
  | cons inside _ mixed _ ih => exact .cons inside ih (mixed.append_end others)

/-- Some instances after others, group by group. -/
theorem flatMap {α : Type} {items : List α} {instances : α → List (DerivedType × Address)}
    {calls : α → List (Procedure × Argument)}
    (each : ∀ x ∈ items, OutsideIn (instances x) (calls x)) :
    OutsideIn (items.flatMap instances) (items.flatMap calls) := by
  induction items with
  | nil => exact .nil
  | cons x rest ih =>
    rw [List.flatMap_cons, List.flatMap_cons]
    exact (each x List.mem_cons_self).append (ih fun y mem => each y (List.mem_cons_of_mem _ mem))

/-- All elements at one level, and after that all of them at the level of the extended type. -/
theorem levels {ty base : DerivedType} {elements : List Address}
    {components : Address → List (DerivedType × Address)}
    {inner : Address → List (Procedure × Argument)} {above : List (Procedure × Argument)}
    (holds : ∀ e, ty.subobjects e = components e ++ [(base, e)])
    (inside : ∀ e ∈ elements, OutsideIn (components e) (inner e))
    (parents : OutsideIn (elements.map (base, ·)) above) :
    OutsideIn (elements.map (ty, ·))
      ((elements.flatMap fun e => ty.finalizerCalls e ++ inner e) ++ above) := by
  induction elements generalizing above with
  | nil =>
    cases parents
    exact .nil
  | cons e rest ih =>
    cases parents with
    | @cons _ _ _ innerBase restBase _ insideBase outsideBase mixedBase =>
      -- The calls for the first element are those at this level and those for it at the level of
      -- the base.
      have here : OutsideIn (ty.subobjects e)
          (inner e ++ (base.finalizerCalls e ++ innerBase)) := by
        rw [holds e]
        exact (inside e List.mem_cons_self).append insideBase.singleton
      have later := ih (fun e' mem => inside e' (List.mem_cons_of_mem _ mem)) outsideBase
      rw [List.flatMap_cons, List.append_assoc]
      refine .cons here later ?_
      rw [← List.append_assoc]
      exact (mixedBase.append_right _).append_left _

end OutsideIn

end DerivedTypes
