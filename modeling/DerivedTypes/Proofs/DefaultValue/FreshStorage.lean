import DerivedTypes.Proofs.DefaultValue.Refinement
import DerivedTypes.Proofs.Ownership.Holdings

namespace DerivedTypes

/-!
# Default values of fresh storage

Fresh storage is all zeros. An image may put other bytes into it, but not where an instance has
descriptors, and code that stores nothing puts nothing there either. So after default initialization
all descriptors in the storage are zeroed (`Descriptor.exists_setDefaults`), at any depth.
-/

namespace DerivedType

/-- The image of the type has zeros where an instance has descriptors. -/
def ZeroSlots (ty : DerivedType) : Prop :=
  ∀ image, ty.image = some image → ∀ (a : Address) i, a + i ∈ ty.slots a →
    ∀ j < descriptorBytes, image[i + j]?.getD 0 = 0

variable {context : ExecutionContext} {ty : DerivedType} {a : Address}

/-- Default initialization leaves nothing but zeros in the descriptors of an instance. -/
theorem eq_zero_of_last?_defaultEffects {ty : DerivedType} {a s b : Address} {value : UInt8}
    (laid : ty.Throughout LaidOut) (zeros : ty.Throughout ZeroSlots) (mem : s ∈ ty.slots a)
    (here : b.InSpan s descriptorBytes)
    (there : Effect.last? .silent (ty.defaultEffects context a) b = some value) : value = 0 := by
  cases image : ty.image with
  | some bytes =>
    obtain ⟨i, rfl, _⟩ := exists_offset_of_mem_slots laid mem
    obtain ⟨j, lt, rfl⟩ := here.exists_add
    have zero := zeros.own bytes image a i mem j lt
    rw [defaultEffects_of_image image, Effect.last?_store, Address.add_add, Store.byte?_add,
      List.getElem?_take] at there
    -- An image that is longer than the instance is cut off.
    by_cases copied : i + j < ty.size.toNat
    · rw [if_pos copied] at there
      rw [there] at zero
      exact zero
    · rw [if_neg copied] at there
      cases there
  | none =>
    cases code : ty.initializerEntry? context with
    | some initializer =>
      rw [defaultEffects_of_entry image code] at there
      cases there
    | none =>
      -- The descriptor lies in one part, and no other part matters.
      rw [slots_eq] at mem
      obtain ⟨p, part, mem⟩ := List.mem_flatMap.mp mem
      obtain ⟨i, rfl, le⟩ := exists_offset_of_mem_part_slots laid part mem
      rw [last?_defaultEffects_of_parts image code,
        Part.last?_flatMap_of_mem (laid.own.pairwise_parts a)
          (inside_part_defaultEffects laid.effectsInside_silent) part (here.of_sub le)] at there
      have visited : Effect.last? .silent (p.defaultEffects context) b =
          some value → value = 0 := by
        cases p with
        | slot s =>
          intro nothing
          cases nothing
        | element nested e =>
          have := sizeOf_of_mem_parts part
          rw [Part.defaultEffects_element]
          exact eq_zero_of_last?_defaultEffects (laid.of_mem_parts part)
            (zeros.of_mem_parts part) mem here
      -- The byte is from the default value of the part, or from the outer fill.
      rcases Option.or_eq_some_iff.mp there with inner | ⟨_, outer⟩
      · by_cases visit : ty.isFilledByComponent
        · rw [if_pos visit] at inner
          exact visited inner
        · rw [if_neg visit] at inner
          cases inner
      · by_cases filled : ty.isZeroFilled
        · rw [if_pos filled] at outer
          rcases Store.byte?_zeros_cases a b ty.size.toNat with nothing | zero
          · rw [nothing] at outer
            cases outer
          · rw [zero] at outer
            exact (Option.some.inj outer).symm
        · rw [if_neg filled] at outer
          cases outer
termination_by sizeOf ty

end DerivedType

/-! ### Described storage -/

namespace Descriptor

variable {env : Environment} {d : Descriptor} {ty : DerivedType} {data : Address}

/-- The effects on all described elements stay among their bytes. -/
theorem inside_effects_defaultSteps {context : ExecutionContext} (named : d.derivedType? = some ty)
    (size : d.elementSize = ty.size) (laid : ty.Throughout DerivedType.LaidOut) :
    ∀ e ∈ (d.defaultSteps context data).flatMap (·.effects),
      e.Inside .silent data (d.elementCount * d.elementSize.toNat) := by
  intro e mem
  rw [effects_defaultSteps context named, List.flatMap_map] at mem
  obtain ⟨element, inStorage, mem⟩ := List.mem_flatMap.mp mem
  obtain ⟨i, rfl, le⟩ := exists_offset_of_mem_elementAddresses inStorage
  have inside := DerivedType.inside_element_defaultEffects laid.effectsInside_silent _ e mem
  rw [← size] at inside
  exact inside.mono le

/-- Default initialization leaves nothing but zeros in the descriptors of described storage. -/
theorem eq_zero_of_last?_defaultSteps {context : ExecutionContext} {e s b : Address} {value : UInt8}
    (named : d.derivedType? = some ty) (size : d.elementSize = ty.size)
    (laid : ty.Throughout DerivedType.LaidOut) (zeros : ty.Throughout DerivedType.ZeroSlots)
    (element : e ∈ d.elementAddresses data) (mem : s ∈ ty.slots e)
    (here : b.InSpan s descriptorBytes)
    (there : Effect.last? .silent ((d.defaultSteps context data).flatMap (·.effects)) b =
      some value) :
    value = 0 := by
  -- The elements lie side by side, as the parts of an instance do.
  have apart := d.pairwise_elements size data
  have inside : ∀ p ∈ (d.elementAddresses data).map (Part.element ty),
      ∀ f ∈ p.defaultEffects context, f.Inside .silent p.address p.size := by
    intro p mem
    obtain ⟨e, _, rfl⟩ := List.mem_map.mp mem
    exact DerivedType.inside_element_defaultEffects laid.effectsInside_silent e
  obtain ⟨i, rfl, le⟩ := DerivedType.exists_offset_of_mem_slots laid mem
  rw [effects_defaultSteps context named,
    Part.last?_flatMap_of_mem apart inside (List.mem_map_of_mem element) (here.of_sub le),
    Part.defaultEffects_element] at there
  exact DerivedType.eq_zero_of_last?_defaultEffects laid zeros mem here there

/-- The default values of described storage that is all zeros are given without a fault, and then
    all descriptors in the storage are zeroed. Nothing outside the storage changes. -/
theorem exists_setDefaults (inert : env.Inert) (typed : d.Typed) (base : d.base = some data)
    (zeros : ∀ ty, d.derivedType? = some ty → ty.Throughout DerivedType.ZeroSlots) {M : Machine}
    (room : M.memory.spans data (d.elementCount * d.elementSize.toNat))
    (blank : ∀ b : Address, b.InSpan data (d.elementCount * d.elementSize.toNat) →
      M.memory.byte? b = some 0) :
    ∃ M', d.setDefaults env data M = .ok () M' ∧ M'.heapLog = M.heapLog ∧
      M.memory.SameShape M'.memory ∧
      (∀ b : Address, ¬ b.InSpan data (d.elementCount * d.elementSize.toNat) →
        M'.memory.byte? b = M.memory.byte? b) ∧
      ∀ s ∈ d.slots, M'.memory.descriptor? s = some .zeroed := by
  cases named : d.derivedType? with
  | none =>
    refine ⟨M, ?_, rfl, .refl _, fun _ _ => rfl, fun s mem => ?_⟩
    · rw [setDefaults, named]
      rfl
    · rw [slots_of_base base, named] at mem
      cases mem
  | some ty =>
    obtain ⟨size, sound⟩ := typed ty named
    have laid := sound.imp fun _ sound => sound.laidOut
    have inside : ∀ e ∈ (d.defaultSteps env.context data).flatMap (·.effects),
        e.Inside .silent data (d.elementCount * d.elementSize.toNat) :=
      inside_effects_defaultSteps named size laid
    obtain ⟨M', run, underwent⟩ := DefaultStep.exists_forM inert.storesFixed inside (.inr room)
    refine ⟨M', ?_, underwent.heapLog, underwent.shape, fun b outside => ?_, fun s mem => ?_⟩
    · rw [setDefaults_eq]
      exact run
    · rw [underwent.byte?, Effect.last?_of_not_inSpan inside outside, Option.none_or]
    · obtain ⟨i, begins, le⟩ := exists_offset_of_mem_slots typed base mem
      obtain ⟨data', ty', base', named', e, element, inElement⟩ := mem_slots.mp mem
      obtain rfl := Option.some.inj (base.symm.trans base')
      obtain rfl := Option.some.inj (named.symm.trans named')
      -- All bytes were zeros before, and default initialization stores nothing else there.
      refine Memory.descriptor?_of_zeros ?_ fun b here => ?_
      · rw [Memory.spans_of_size (underwent.shape.size _), begins]
        exact Memory.spans_mono room le
      · have within : b.InSpan data (d.elementCount * d.elementSize.toNat) := by
          rw [begins] at here
          exact here.of_sub le
        rw [underwent.byte?, blank b within]
        cases left : Effect.last? .silent ((d.defaultSteps env.context data).flatMap (·.effects))
          b with
        | none => rfl
        | some value =>
          have zero :=
            eq_zero_of_last?_defaultSteps named size laid (zeros ty named) element inElement
            here left
          rw [zero, Option.some_or]

end Descriptor

end DerivedTypes
