import DerivedTypes.Proofs.DefaultValue.Refinement

namespace DerivedTypes

/-!
# What the flags stand for

The flags of a type are worked out from the flags of the types embedded in it, and from nothing that
lies deeper. Still they tell about any depth. A type draws on another one (`DerivedType.DrawsOn`) if
a walk comes there that goes from types to the types embedded in them, and no further than to a type
that initializes itself. The flags answer two questions about the types that are drawn on: whether
one of them initializes itself, and whether one of them has a descriptor.

* `Component.fillFlags_zero_iff`, `Component.fillFlags_component_iff`: what one component asks for;
* `DerivedType.drawsOnInitializer_iff`, `DerivedType.drawsOnDescriptor_iff`: what a type draws on,
  told one level down;
* `Summarized.isFilledByComponent_iff`, `Summarized.isInitializable_iff`: the flags, told by what is
  drawn on;
* `DerivedType.flags_exact`: all flags together, and that nothing is lost where they ask for
  nothing.
-/

/-! ### What one component asks for -/

namespace Component

variable (c : Component)

/-- What a component asks for, told by the type embedded in it. -/
theorem fillFlags_eq :
    c.fillFlags =
      if c.isDescriptor then .zeroFill
      else
        match c.embedded? with
        | none => .none
        | some (_, nested) => .asked nested.initializesItself nested.fillFlags := by
  unfold fillFlags
  obtain slot | ⟨shape, nested, there⟩ | ⟨plain, none⟩ := c.parts_cases
  · rw [if_pos slot, if_pos slot]
  · have plain := (embedded?_eq_some_iff.mp there).1
    rw [if_neg (by simp [plain]), if_neg (by simp [plain]), derivedType?_of_embedded? there, there]
  · have unnamed : c.derivedType? = .none :=
      Option.bind_eq_none_iff.mpr fun _ static => derivedType?_of_plain plain none static
    rw [if_neg (by simp [plain]), if_neg (by simp [plain]), unnamed, none]

/-- A component asks for a fill with zeros if it is a descriptor, or if its elements want nothing
    but that. -/
theorem fillFlags_zero_iff :
    c.fillFlags.zero ↔
      c.isDescriptor ∨ ∃ shape nested, c.embedded? = some (shape, nested) ∧ nested.isZeroOnly := by
  rw [fillFlags_eq]
  obtain slot | ⟨shape, nested, there⟩ | ⟨plain, none⟩ := c.parts_cases
  · simp [slot, FillFlags.zeroFill]
  · have plain := (embedded?_eq_some_iff.mp there).1
    simp only [plain, there, Bool.false_eq_true, if_false, false_or,
      Option.some.injEq, Prod.mk.injEq]
    unfold FillFlags.asked DerivedType.isZeroOnly DerivedType.isZeroFilled
      DerivedType.isFilledByComponent
    grind [FillFlags.zeroFill, FillFlags.perElement, FillFlags.none]
  · simp [plain, none, FillFlags.none]

/-- A component asks for a visit of its elements if they have a default value and want more than
    zeros. -/
theorem fillFlags_component_iff :
    c.fillFlags.component ↔
      ∃ shape nested, c.embedded? = some (shape, nested) ∧ nested.isInitializable ∧
      nested.isZeroOnly = false := by
  rw [fillFlags_eq]
  obtain slot | ⟨shape, nested, there⟩ | ⟨plain, none⟩ := c.parts_cases
  · have none : c.embedded? = none := embedded?_eq_none_iff.mpr (.inl slot)
    simp [slot, none, FillFlags.zeroFill]
  · have plain := (embedded?_eq_some_iff.mp there).1
    simp only [plain, there, Bool.false_eq_true, if_false, Option.some.injEq, Prod.mk.injEq]
    unfold FillFlags.asked DerivedType.isInitializable DerivedType.isZeroOnly
      DerivedType.isZeroFilled
      DerivedType.isFilledByComponent
    grind [FillFlags.zeroFill, FillFlags.perElement, FillFlags.none]
  · simp [plain, none, FillFlags.none]

end Component

namespace DerivedType

/-! ### Types that a default value draws on -/

/-- The default value of a type draws on the type itself and, unless the type initializes itself, on
    all that the types embedded in it draw on. -/
inductive DrawsOn : DerivedType → DerivedType → Prop
  | self (ty : DerivedType) : DrawsOn ty ty
  | embedded {ty nested source : DerivedType} {c : Component} {shape : Descriptor}
      (plain : ty.initializesItself = false) (mem : c ∈ ty.components)
      (there : c.embedded? = some (shape, nested))
      (deeper : DrawsOn nested source) : DrawsOn ty source

/-- The type draws on one that initializes itself. -/
def DrawsOnInitializer (ty : DerivedType) : Prop :=
  ∃ source, ty.DrawsOn source ∧ source.initializesItself

/-- The type draws on one with a descriptor component. -/
def DrawsOnDescriptor (ty : DerivedType) : Prop :=
  ∃ source, ty.DrawsOn source ∧ ∃ c ∈ source.components, c.isDescriptor

/-- Some type that is embedded in this one, without another one in between, has a property. -/
def Embeds (ty : DerivedType) (P : DerivedType → Prop) : Prop :=
  ∃ c ∈ ty.components, ∃ shape nested, c.embedded? = some (shape, nested) ∧ P nested

variable {P Q : DerivedType → Prop} {ty : DerivedType}

/-- What comes to the same for each embedded type comes to the same for some of them. -/
theorem embeds_congr
    (same : ∀ c ∈ ty.components, ∀ shape nested, c.embedded? = some (shape, nested) →
      (P nested ↔ Q nested)) : ty.Embeds P ↔ ty.Embeds Q :=
  exists_congr fun c => and_congr_right fun mem => exists_congr fun shape =>
    exists_congr fun nested =>
      and_congr_right fun there => same c mem shape nested there

/-- A type draws on itself or, through an embedded type, on another one. -/
theorem exists_drawsOn_iff (P : DerivedType → Prop) (ty : DerivedType) :
    (∃ source, ty.DrawsOn source ∧ P source) ↔
      P ty ∨ ty.initializesItself = false ∧ ty.Embeds fun nested =>
        ∃ source, nested.DrawsOn source ∧ P source := by
  constructor
  · rintro ⟨source, draws, holds⟩
    cases draws with
    | self => exact .inl holds
    | embedded plain mem there deeper =>
      exact .inr ⟨plain, _, mem, _, _, there, source, deeper, holds⟩
  · rintro (holds | ⟨plain, c, mem, shape, nested, there, source, deeper, holds⟩)
    · exact ⟨ty, .self ty, holds⟩
    · exact ⟨source, .embedded plain mem there deeper, holds⟩

/-- Where a type does not initialize itself, it is up to the embedded types whether one does. -/
theorem drawsOnInitializer_iff (plain : ty.initializesItself = false) :
    ty.DrawsOnInitializer ↔ ty.Embeds DrawsOnInitializer := by
  rw [DrawsOnInitializer, exists_drawsOn_iff, plain]
  simp only [Bool.false_eq_true, false_or, true_and]
  rfl

/-- Where a type does not initialize itself, a descriptor is one of its components or lies in an
    embedded type. -/
theorem drawsOnDescriptor_iff (plain : ty.initializesItself = false) :
    ty.DrawsOnDescriptor ↔ (∃ c ∈ ty.components, c.isDescriptor) ∨ ty.Embeds DrawsOnDescriptor := by
  rw [DrawsOnDescriptor, exists_drawsOn_iff, plain]
  simp only [true_and]
  rfl

/-! ### The flags, one level down -/

namespace Summarized

/-- The instance is filled with zeros because of a descriptor, or because of elements that want
    nothing else. -/
theorem isZeroFilled_iff_exists (h : ty.Summarized) (plain : ty.initializesItself = false) :
    ty.isZeroFilled ↔ (∃ c ∈ ty.components, c.isDescriptor) ∨ ty.Embeds fun nested =>
      nested.isZeroOnly := by
  rw [isZeroFilled, h.fillFlags_eq plain, foldr_both, List.any_map, List.any_eq_true]
  simp only [Function.comp_apply, Component.fillFlags_zero_iff, and_or_left, exists_or]
  rfl

/-- Embedded elements are visited because of those that want more than zeros. -/
theorem isFilledByComponent_iff_embeds (h : ty.Summarized) (plain : ty.initializesItself = false) :
    ty.isFilledByComponent ↔ ty.Embeds fun nested =>
      nested.isInitializable ∧ nested.isZeroOnly = false := by
  rw [isFilledByComponent, h.fillFlags_eq plain, foldr_both, List.any_map,
    List.any_map, List.any_eq_true]
  simp only [Function.comp_apply, Component.fillFlags_component_iff]
  rfl

/-- A type that does not initialize itself has a default value because of a descriptor, or because
    of the default value of embedded elements. -/
theorem isInitializable_iff_exists (h : ty.Summarized) (plain : ty.initializesItself = false) :
    ty.isInitializable ↔ (∃ c ∈ ty.components, c.isDescriptor) ∨ ty.Embeds fun nested =>
      nested.isInitializable := by
  have job : ty.isInitializable ↔ ty.isZeroFilled ∨ ty.isFilledByComponent := by
    simp [isInitializable, plain]
  rw [job, h.isZeroFilled_iff_exists plain, h.isFilledByComponent_iff_embeds plain, or_assoc]
  refine or_congr_right ⟨?_, ?_⟩
  · rintro (⟨c, mem, shape, nested, there, zeroOnly⟩ | ⟨c, mem, shape, nested,
      there, initializable, _⟩)
    · have zeros : nested.isZeroFilled := (Bool.and_eq_true_iff.mp zeroOnly).1
      exact ⟨c, mem, shape, nested, there, by simp [isInitializable, zeros]⟩
    · exact ⟨c, mem, shape, nested, there, initializable⟩
  · rintro ⟨c, mem, shape, nested, there, initializable⟩
    cases zeroOnly : nested.isZeroOnly with
    | true => exact .inl ⟨c, mem, shape, nested, there, zeroOnly⟩
    | false => exact .inr ⟨c, mem, shape, nested, there, initializable, zeroOnly⟩

/-- A default value is more than zeros where the type initializes itself or embedded elements are
    visited. -/
theorem more_than_zeros_iff (h : ty.Summarized) :
    ty.isInitializable ∧ ty.isZeroOnly = false ↔ ty.initializesItself ∨ ty.isFilledByComponent := by
  cases itself : ty.initializesItself with
  | true =>
    have flags := h.fillFlags_of_initializesItself itself
    simp [isInitializable, isZeroOnly, isZeroFilled, itself, flags, FillFlags.none]
  | false =>
    simp only [isInitializable, isZeroOnly, itself]
    grind

/-! ### The flags at any depth -/

/-- Embedded elements are visited exactly where a type does not initialize itself, but draws on one
    that does. -/
theorem isFilledByComponent_iff {ty : DerivedType} (h : ty.Summarized) :
    ty.isFilledByComponent ↔ ty.initializesItself = false ∧ ty.DrawsOnInitializer := by
  cases itself : ty.initializesItself with
  | true =>
    have flags := h.fillFlags_of_initializesItself itself
    simp [isFilledByComponent, flags, FillFlags.none]
  | false =>
    rw [h.isFilledByComponent_iff_embeds itself, drawsOnInitializer_iff itself]
    simp only [true_and]
    refine embeds_congr fun c mem shape nested there => ?_
    have := sizeOf_embedded mem there
    have inner := h.of_component mem (Component.derivedType?_of_embedded? there)
    -- The flag of the embedded type tells what it draws on.
    rw [inner.more_than_zeros_iff, inner.isFilledByComponent_iff]
    by_cases inItself : nested.initializesItself
    · simp only [inItself, true_or, true_iff]
      exact ⟨nested, .self nested, inItself⟩
    · simp [inItself]
termination_by sizeOf ty

/-- A type has a default value exactly where it initializes itself or draws on a type that has a
    descriptor or initializes itself. -/
theorem isInitializable_iff {ty : DerivedType} (h : ty.Summarized) :
    ty.isInitializable ↔ ty.initializesItself ∨ ty.DrawsOnDescriptor ∨ ty.DrawsOnInitializer := by
  cases itself : ty.initializesItself with
  | true => simp [isInitializable, itself]
  | false =>
    rw [h.isInitializable_iff_exists itself, drawsOnDescriptor_iff itself,
      drawsOnInitializer_iff itself]
    simp only [Bool.false_eq_true, false_or, or_assoc]
    refine or_congr_right ?_
    have deeper : (ty.Embeds fun nested => nested.isInitializable) ↔
        ty.Embeds fun nested => nested.DrawsOnDescriptor ∨ nested.DrawsOnInitializer := by
      refine embeds_congr fun c mem shape nested there => ?_
      have := sizeOf_embedded mem there
      rw [(h.of_component mem (Component.derivedType?_of_embedded? there)).isInitializable_iff]
      refine ⟨fun has => has.elim (fun itself => .inr ⟨nested, .self nested, itself⟩) id, .inr⟩
    rw [deeper]
    simp only [Embeds, and_or_left, exists_or]
termination_by sizeOf ty

/-- A default value is all zeros exactly where a type has one and draws on no type that initializes
    itself. -/
theorem isZeroOnly_iff (h : ty.Summarized) :
    ty.isZeroOnly ↔ ty.isInitializable ∧ ¬ ty.DrawsOnInitializer := by
  have more := h.more_than_zeros_iff
  have visits := h.isFilledByComponent_iff
  have draws : ty.initializesItself → ty.DrawsOnInitializer := fun itself => ⟨ty, .self ty, itself⟩
  have zeros : ty.isZeroOnly → ty.isInitializable := fun zeroOnly => by
    simp [isInitializable, (Bool.and_eq_true_iff.mp zeroOnly).1]
  grind

end Summarized

/-- The flags of a type say at any depth what they say of one level. A type that initializes itself
    has neither flag. Embedded elements are visited exactly if the type does not initialize itself
    but draws on one that does. There is a default value exactly if the type initializes itself, or
    draws on a type that has a descriptor or initializes itself, and it is all zeros exactly if no
    type that is drawn on initializes itself. Without a default value, the recursion that knows no
    flags stores nothing and calls nothing. -/
theorem flags_exact (h : ty.Summarized) :
    (ty.initializesItself → ty.isZeroFilled = false ∧ ty.isFilledByComponent = false) ∧
    (ty.isFilledByComponent ↔ ty.initializesItself = false ∧ ty.DrawsOnInitializer) ∧
    (ty.isInitializable ↔ ty.initializesItself ∨ ty.DrawsOnDescriptor ∨ ty.DrawsOnInitializer) ∧
    (ty.isZeroOnly ↔ ty.isInitializable ∧ ¬ ty.DrawsOnInitializer) ∧
    (ty.isInitializable = false → ∀ context a, ty.plainEffects context a = []) := by
  refine ⟨fun itself => ?_, h.isFilledByComponent_iff, h.isInitializable_iff,
    h.isZeroOnly_iff, fun nothing _ _ =>
      plainEffects_of_not_initializable h nothing⟩
  rw [isZeroFilled, isFilledByComponent, h.fillFlags_of_initializesItself itself]
  exact ⟨rfl, rfl⟩

/-! ### A crate of records -/

namespace Crate

open Record

/-- Two numbers, without a default value. -/
def point : DerivedType :=
  { number := 3, name := "point", parameters := [],
    components := [.intrinsic "x" ⟨.real, 8⟩ 0, .intrinsic "y" ⟨.real, 8⟩ 8],
    procedures := [], image := none,
    size := 16, isSequence := false, isBindC := false : DerivedType }.summarize

/-- A point and two records, each with a descriptor, an image and an initializer in it. -/
def crate : DerivedType :=
  { number := 4, name := "crate", parameters := [],
    components := [.derived "corner" (one point) 0, .derived "records" (.row record 2 464) 16],
    procedures := [], image := none, size := 944, isSequence := false, isBindC := false :
      DerivedType }.summarize

/-- A point is built by `DerivedType.summarize`. -/
theorem summarized_point : point.Summarized := by
  refine summarized_summarize fun c mem inner named => ?_
  obtain rfl | rfl : c = .intrinsic "x" ⟨.real, 8⟩ 0 ∨ c = .intrinsic "y" ⟨.real, 8⟩ 8 := by
    simpa [point] using mem
  all_goals cases named

/-- So is a crate, and so is what is in it. -/
theorem summarized_crate : crate.Summarized := by
  refine summarized_summarize fun c mem inner named => ?_
  obtain rfl | rfl : c = .derived "corner" (one point) 0 ∨
      c = .derived "records" (.row record 2 464) 16 := by
    simpa [crate] using mem
  · obtain rfl := Option.some.inj named
    exact summarized_point
  · obtain rfl := Option.some.inj named
    exact summarized_record

end Crate

/-- The records of a crate are visited, because they hold types that initialize themselves: its
    default value is more than zeros. A point has none, and the recursion that knows no flags finds
    nothing to do either. -/
theorem crate_flags_exact :
    Crate.crate.isFilledByComponent ∧ Crate.crate.DrawsOnInitializer ∧ Crate.crate.isInitializable ∧
      ¬ Crate.crate.isZeroOnly ∧
      Crate.point.isInitializable = false ∧ ∀ a, Crate.point.plainEffects .device a = [] := by
  have visited : Crate.crate.isFilledByComponent := by decide
  have nothing : Crate.point.isInitializable = false := by decide
  obtain ⟨_, visits, initializable, zeros, _⟩ := flags_exact Crate.summarized_crate
  obtain ⟨_, _, _, _, skipped⟩ := flags_exact Crate.summarized_point
  have draws := (visits.mp visited).2
  exact ⟨visited, draws, initializable.mpr (.inr (.inr draws)), fun zeroOnly =>
    (zeros.mp zeroOnly).2 draws, nothing,
    skipped nothing .device⟩

end DerivedType

end DerivedTypes
