import DerivedTypes.Proofs.DefaultValue.Effects
import DerivedTypes.Proofs.DerivedType.Parts

namespace DerivedTypes

/-!
# Default values without flags

What default initialization does is decided by flags that were worked out when the tables were
built. `DerivedType.plainEffects` are the effects of the recursion that knows no flags, and
`DerivedType.defaultEffects` those of the one that obeys them.

* `DerivedType.defaultSteps_of_not_initializable`: a type without a default value has no steps;
* `DerivedType.exists_own_of_mem_defaultSteps`: each step is one that a type in the instance asks
  for by itself;
* `Summarized.isZeroFilled_of_slot`, `Summarized.filled_of_element`: what the flags say about the
  parts of an instance;
* `plainEffects_of_not_initializable`, `mem_plainEffects_of_isZeroOnly`: where the flags ask for
  nothing, or for zeros only, the plain recursion does nothing else either.
-/

/-! ### Two recursions -/

namespace DerivedType

/-- The effects that give the instance at an address its default value, by the plain recursion: the
    image is stored, or else the initializer is called, or else each descriptor component is filled
    with zeros and each embedded element gets its own default value. -/
def plainEffects (context : ExecutionContext) (ty : DerivedType) (a : Address) : List Effect :=
  match ty.image with
  | some image => [.store ⟨a, image⟩]
  | none =>
    match ty.initializerEntry? context with
    | some (procedure, entry) => [.call procedure entry a]
    | none =>
      (ty.parts a).attach.flatMap fun ⟨p, mem⟩ =>
        match p, mem with
        | .slot s, _ => [.store ⟨s, .replicate descriptorBytes 0⟩]
        | .element nested e, _ => nested.plainEffects context e
termination_by sizeOf ty
decreasing_by exact sizeOf_of_mem_parts (by assumption)

/-- The effects that give the instance at an address its default value, by its flags. -/
def defaultEffects (context : ExecutionContext) (ty : DerivedType) (a : Address) : List Effect :=
  (ty.defaultSteps context a).flatMap (·.effects)

end DerivedType

namespace Part

/-- The effects on one part in the plain recursion. -/
def plainEffects (context : ExecutionContext) : Part → List Effect
  | slot s => [.store ⟨s, .replicate descriptorBytes 0⟩]
  | element nested e => nested.plainEffects context e

/-- The effects on one part when flags decide. -/
def defaultEffects (context : ExecutionContext) : Part → List Effect
  | slot _ => []
  | element nested e => if nested.isInitializable then nested.defaultEffects context e else []

end Part

namespace DerivedType

variable {context : ExecutionContext} {ty : DerivedType} {a : Address}

/-- An image is stored as it is. -/
theorem plainEffects_of_image {image : List UInt8} (there : ty.image = some image) :
    ty.plainEffects context a = [.store ⟨a, image⟩] := by
  rw [plainEffects, there]

/-- Without an image, the initializer is called. -/
theorem plainEffects_of_entry {procedure : Procedure} {entry : EntryPoint}
    (noImage : ty.image = none) (there : ty.initializerEntry? context = some (procedure, entry)) :
    ty.plainEffects context a = [.call procedure entry a] := by
  rw [plainEffects, noImage, there]

/-- Without either, the parts get their default values. -/
theorem plainEffects_of_parts (noImage : ty.image = none)
    (noEntry : ty.initializerEntry? context = none) :
    ty.plainEffects context a = (ty.parts a).flatMap (·.plainEffects context) := by
  have members := List.attach_map_subtype_val (ty.parts a)
  conv_rhs => rw [← members, List.flatMap_map]
  rw [plainEffects, noImage, noEntry]
  dsimp only
  congr 1
  ext ⟨p, _⟩ : 1
  cases p <;> rfl

/-- Of an image, default initialization stores what the instance has room for. -/
theorem defaultEffects_of_image {image : List UInt8} (there : ty.image = some image) :
    ty.defaultEffects context a = [.store ⟨a, image.take ty.size.toNat⟩] := by
  rw [defaultEffects, defaultSteps, there]
  rfl

/-- Without an image, the initializer is called. -/
theorem defaultEffects_of_entry {procedure : Procedure} {entry : EntryPoint}
    (noImage : ty.image = none) (there : ty.initializerEntry? context = some (procedure, entry)) :
    ty.defaultEffects context a = [.call procedure entry a] := by
  rw [defaultEffects, defaultSteps, noImage, there]
  rfl

/-! ### Types without a default value -/

/-- What does not initialize itself has no image. -/
theorem noImage_of_initializesItself (plain : ty.initializesItself = false) : ty.image = none := by
  rw [initializesItself, Bool.or_eq_false_iff] at plain
  simpa using plain.1

/-- What does not initialize itself has no initializer in any context. -/
theorem noEntry_of_initializesItself (plain : ty.initializesItself = false) :
    ty.initializerEntry? context = none := by
  rw [initializesItself, Bool.or_eq_false_iff, List.any_eq_false] at plain
  have none : ty.procedures.filter (·.isInitializer) = [] :=
    List.filter_eq_nil_iff.mpr fun p mem => plain.2 p mem
  unfold initializerEntry?
  rw [initializer?, none]
  rfl

/-- There is no default value if there is nothing to do. -/
theorem isInitializable_eq_false_iff :
    ty.isInitializable = false ↔
      ty.initializesItself = false ∧ ty.isZeroFilled = false ∧ ty.isFilledByComponent = false := by
  rw [isInitializable, Bool.or_eq_false_iff, Bool.or_eq_false_iff, and_assoc]

/-- A type without a default value has no steps, so nothing is lost where it is passed over. -/
theorem defaultSteps_of_not_initializable (nothing : ty.isInitializable = false) (a : Address) :
    ty.defaultSteps context a = [] := by
  obtain ⟨plain, noZeros, noVisit⟩ := isInitializable_eq_false_iff.mp nothing
  rw [defaultSteps_eq a (noImage_of_initializesItself plain) (noEntry_of_initializesItself plain),
    noZeros, noVisit]
  rfl

end DerivedType

/-! ### Steps for parts -/

/-- The steps that give one part its default value, when flags decide. -/
def Part.defaultSteps (context : ExecutionContext) : Part → List DefaultStep
  | slot _ => []
  | element nested e => if nested.isInitializable then nested.defaultSteps context e else []

/-- The steps for an element are those of its type, whether or not it has a default value. -/
theorem Part.defaultSteps_element (context : ExecutionContext)
    (nested : DerivedType) (e : Address) :
    (element nested e).defaultSteps context = nested.defaultSteps context e := by
  rw [Part.defaultSteps]
  cases initializable : nested.isInitializable with
  | true => rfl
  | false => exact (DerivedType.defaultSteps_of_not_initializable initializable e).symm

/-- The effects of the steps for a part are those of the part. -/
theorem Part.effects_defaultSteps (context : ExecutionContext) (p : Part) :
    (p.defaultSteps context).flatMap (·.effects) = p.defaultEffects context := by
  cases p with
  | slot s => rfl
  | element nested e =>
    rw [Part.defaultSteps, Part.defaultEffects]
    split <;> rfl

/-- The effects on an element are those of its type, whether or not it has a default value. -/
theorem Part.defaultEffects_element (context : ExecutionContext) (nested : DerivedType)
    (e : Address) :
    (element nested e).defaultEffects context = nested.defaultEffects context e := by
  rw [← effects_defaultSteps, defaultSteps_element]
  rfl

/-- The steps for described elements are those of their type for each of them. -/
theorem Descriptor.defaultSteps_eq_flatMap (context : ExecutionContext) {d : Descriptor}
    {ty : DerivedType} (named : d.derivedType? = some ty) (data : Address) :
    d.defaultSteps context data = (d.elementAddresses data).flatMap (ty.defaultSteps context) := by
  rw [defaultSteps, named]
  cases initializable : ty.isInitializable with
  | true => exact if_pos initializable
  | false => simp [initializable, DerivedType.defaultSteps_of_not_initializable initializable]

/-- To give described elements their default values is to do so for each of them, whether or not
    there is one. -/
theorem Descriptor.setDefaults_eq_forM (env : Environment) {d : Descriptor} {ty : DerivedType}
    (named : d.derivedType? = some ty) (data : Address) :
    d.setDefaults env data = forM (d.elementAddresses data) (ty.setDefault env) := by
  rw [setDefaults_eq, defaultSteps_eq_flatMap _ named, List.forM_eq_forM, Run.forM_flatMap]
  congr 1
  funext e
  rw [DerivedType.setDefault_eq, List.forM_eq_forM]

/-- The steps for described elements are those for each of them as a part. -/
theorem Descriptor.defaultSteps_eq_elements (context : ExecutionContext) {d : Descriptor}
    {ty : DerivedType} (named : d.derivedType? = some ty) (data : Address) :
    d.defaultSteps context data =
      ((d.elementAddresses data).map (Part.element ty)).flatMap (·.defaultSteps context) := by
  rw [defaultSteps_eq_flatMap context named, List.flatMap_map]
  simp only [Part.defaultSteps_element]

/-- The steps for described elements have the effects on each of them. -/
theorem Descriptor.effects_defaultSteps (context : ExecutionContext) {d : Descriptor}
    {ty : DerivedType} (named : d.derivedType? = some ty) (data : Address) :
    (d.defaultSteps context data).flatMap (·.effects) =
      ((d.elementAddresses data).map (Part.element ty)).flatMap (·.defaultEffects context) := by
  rw [defaultSteps_eq_elements context named, List.flatMap_assoc]
  simp only [Part.effects_defaultSteps]

/-- The steps of a component are those for its parts. -/
theorem Component.defaultSteps_eq_parts (context : ExecutionContext) (c : Component) (a : Address) :
    c.defaultSteps context a = (c.parts a).flatMap (·.defaultSteps context) := by
  obtain slot | ⟨shape, nested, embedded⟩ | ⟨plain, none⟩ := c.parts_cases
  · rw [parts_of_isDescriptor slot, defaultSteps, if_pos slot]
    rfl
  · obtain ⟨plain, static, named⟩ := embedded?_eq_some_iff.mp embedded
    rw [parts_of_embedded embedded, defaultSteps, if_neg (by simp [plain]), static]
    exact shape.defaultSteps_eq_elements context named _
  · rw [parts_of_plain plain none, defaultSteps, if_neg (by simp [plain])]
    cases static : c.static? with
    | none => rfl
    | some shape =>
      dsimp only
      rw [Descriptor.defaultSteps, derivedType?_of_plain plain none static]
      rfl

namespace DerivedType

variable {context : ExecutionContext} {ty : DerivedType} {a : Address}

/-- Without an image or an initializer for the context, an instance is filled with zeros and its
    parts get their default values, as far as its type asks for it. -/
theorem defaultSteps_eq_parts (noImage : ty.image = none)
    (noEntry : ty.initializerEntry? context = none) :
    ty.defaultSteps context a =
      (if ty.isZeroFilled then [.zeroFill ty a] else []) ++
      if ty.isFilledByComponent then
        .enterComponents ty :: (ty.parts a).flatMap (·.defaultSteps context)
      else [] := by
  rw [defaultSteps_eq a noImage noEntry, parts, List.flatMap_assoc]
  simp only [Component.defaultSteps_eq_parts]

/-- Without image and initializer, an outer fill comes first, and then the parts that want a
    visit. -/
theorem defaultEffects_of_parts (noImage : ty.image = none)
    (noEntry : ty.initializerEntry? context = none) :
    ty.defaultEffects context a =
      (if ty.isZeroFilled then [.store ⟨a, .replicate ty.size.toNat 0⟩] else []) ++
      if ty.isFilledByComponent then (ty.parts a).flatMap (·.defaultEffects context) else [] := by
  rw [defaultEffects, defaultSteps_eq_parts noImage noEntry, List.flatMap_append]
  congr 1
  · split <;> rfl
  · split
    · rw [List.flatMap_cons, List.flatMap_assoc]
      simp only [Part.effects_defaultSteps]
      rfl
    · rfl

end DerivedType

/-- The steps that a type asks for by itself, for the instance at an address. -/
inductive DefaultStep.Own (context : ExecutionContext) (ty : DerivedType) (a : Address) :
    DefaultStep → Prop
  | copyImage (image : List UInt8) : Own context ty a (.copyImage ty image a)
  | callInitializer {procedure : Procedure} {entry : EntryPoint}
      (there : ty.initializerEntry? context = some (procedure, entry)) :
      Own context ty a (.callInitializer ty procedure entry a)
  | zeroFill : Own context ty a (.zeroFill ty a)
  | enterComponents : Own context ty a (.enterComponents ty)

namespace DerivedType

variable {context : ExecutionContext} {ty : DerivedType} {a : Address}

/-- Each step is one that a type in the instance asks for by itself. What holds of the instance, and
    is handed on to embedded elements, holds where the step belongs. -/
theorem exists_own_of_mem_defaultSteps {P : DerivedType → Address → Prop} {ty : DerivedType}
    {a : Address}
    (deeper : ∀ outer b nested e, P outer b → .element nested e ∈ outer.parts b → P nested e)
    (holds : P ty a) :
    ∀ step ∈ ty.defaultSteps context a, ∃ inner b, P inner b ∧ step.Own context inner b := by
  cases image : ty.image with
  | some bytes =>
    rw [defaultSteps, image]
    exact List.forall_mem_singleton.mpr ⟨ty, a, holds, .copyImage bytes⟩
  | none =>
    cases code : ty.initializerEntry? context with
    | some initializer =>
      rw [defaultSteps, image, code]
      exact List.forall_mem_singleton.mpr ⟨ty, a, holds, .callInitializer code⟩
    | none =>
      rw [defaultSteps_eq_parts image code]
      refine List.forall_mem_append.mpr ⟨fun step mem => ?_, fun step mem => ?_⟩
      · split at mem
        · obtain rfl := List.mem_singleton.mp mem
          exact ⟨ty, a, holds, .zeroFill⟩
        · cases mem
      · split at mem
        · rcases List.mem_cons.mp mem with rfl | mem
          · exact ⟨ty, a, holds, .enterComponents⟩
          · obtain ⟨p, part, mem⟩ := List.mem_flatMap.mp mem
            cases p with
            | slot s => cases mem
            | element nested e =>
              have := sizeOf_of_mem_parts part
              rw [Part.defaultSteps_element] at mem
              exact exists_own_of_mem_defaultSteps deeper (deeper ty a nested e holds part) step mem
        · cases mem
termination_by sizeOf ty

/-! ### What the flags say -/

/-- What lies in an instance lies side by side, and the code of the initializer stores into its own
    instance only. -/
structure EffectsInside (context : ExecutionContext) (fixed : FixedStores) (ty : DerivedType) :
    Prop where
  laidOut : ty.LaidOut
  inside : ∀ p entry, ty.initializerEntry? context = some (p, entry) →
    ∀ f ∈ fixed entry, f.1 + f.2.length ≤ ty.size.toNat

/-- Nothing in the types or in their initializers keeps an instance from getting its default value:
    the image is as long as the instance, and every initializer has code for the context. -/
structure DefaultSound (context : ExecutionContext) (fixed : FixedStores) (ty : DerivedType) : Prop
    extends EffectsInside context fixed ty where
  image : ∀ image, ty.image = some image → image.length = ty.size.toNat
  entry : ∀ p ∈ ty.procedures, p.isInitializer → (p.code.entry? context).isSome

/-- Types that default initialization can work on keep their effects inside. -/
theorem Throughout.effectsInside {fixed : FixedStores}
    (h : ty.Throughout (DefaultSound context fixed)) :
    ty.Throughout (EffectsInside context fixed) :=
  h.imp fun _ sound => sound.toEffectsInside

/-- Where no code stores anything, effects stay inside instances that are laid out. -/
theorem Throughout.effectsInside_silent (laid : ty.Throughout LaidOut) :
    ty.Throughout (EffectsInside context .silent) :=
  laid.imp fun _ laid => ⟨laid, fun _ _ _ _ mem => nomatch mem⟩

/-- Without an image and without code of an initializer, there is nothing with which a type could
    initialize itself. -/
theorem DefaultSound.initializesItself_eq_false {fixed : FixedStores}
    (sound : ty.DefaultSound context fixed) (noImage : ty.image = none)
    (noEntry : ty.initializerEntry? context = none) :
    ty.initializesItself = false := by
  rw [initializesItself, noImage, Option.isSome_none, Bool.false_or, List.any_eq_false]
  intro p mem role
  have nonempty : ty.procedures.filter (·.isInitializer) ≠ [] :=
    List.ne_nil_of_mem (List.mem_filter.mpr ⟨mem, role⟩)
  have last : ty.initializer? = some ((ty.procedures.filter (·.isInitializer)).getLast nonempty) :=
    List.getLast?_eq_some_getLast nonempty
  obtain ⟨there, role⟩ := List.mem_filter.mp (List.getLast_mem nonempty)
  obtain ⟨entry, code⟩ := Option.isSome_iff_exists.mp (sound.entry _ there role)
  unfold initializerEntry? at noEntry
  rw [last, Option.bind_some, code] at noEntry
  cases noEntry

/-- All jobs that are asked for. -/
theorem foldr_both (flags : List FillFlags) :
    flags.foldr FillFlags.both FillFlags.none = ⟨flags.any (·.zero), flags.any (·.component)⟩ := by
  induction flags with
  | nil => rfl
  | cons first rest ih =>
    rw [List.foldr_cons, ih]
    rfl

namespace Summarized

/-- What a component asks for is done. -/
theorem done_of_asked (h : ty.Summarized) (plain : ty.initializesItself = false) {c : Component}
    (mem : c ∈ ty.components) :
    (c.fillFlags.zero → ty.isZeroFilled) ∧ (c.fillFlags.component → ty.isFilledByComponent) := by
  rw [isZeroFilled, isFilledByComponent, h.fillFlags_eq plain, foldr_both,
    List.any_map, List.any_map]
  exact ⟨fun asked => List.any_eq_true.mpr ⟨c, mem, asked⟩,
    fun asked => List.any_eq_true.mpr ⟨c, mem, asked⟩⟩

/-- An instance with a descriptor in it is filled with zeros. -/
theorem isZeroFilled_of_slot (h : ty.Summarized) (plain : ty.initializesItself = false)
    {s : Address} (part : .slot s ∈ ty.parts a) : ty.isZeroFilled := by
  obtain ⟨c, mem, slot⟩ := exists_descriptor_of_mem_parts part
  refine (h.done_of_asked plain mem).1 ?_
  rw [Component.fillFlags, if_pos slot]
  rfl

/-- An embedded element with a default value is visited, unless its default value is all zeros and
    the whole instance is filled with zeros. -/
theorem filled_of_element (h : ty.Summarized) (plain : ty.initializesItself = false)
    {nested : DerivedType} {e : Address} (part : .element nested e ∈ ty.parts a)
    (initializable : nested.isInitializable) :
    ty.isFilledByComponent ∨ (nested.isZeroOnly ∧ ty.isZeroFilled) := by
  obtain ⟨c, mem, shape, embedded⟩ := exists_embedded_of_mem_parts part
  have done := h.done_of_asked plain mem
  rw [Component.fillFlags, if_neg (by simp [(Component.embedded?_eq_some_iff.mp embedded).1]),
    Component.derivedType?_of_embedded? embedded] at done
  dsimp only [FillFlags.asked] at done
  by_cases zeroOnly : nested.isZeroOnly
  · rw [if_pos (show (nested.fillFlags.zero && !nested.fillFlags.component) =
      true from zeroOnly)] at done
    exact .inr ⟨zeroOnly, done.1 rfl⟩
  · rw [if_neg (show ¬ (nested.fillFlags.zero && !nested.fillFlags.component) = true from zeroOnly),
      if_pos
        (show (nested.initializesItself || nested.fillFlags.zero || nested.fillFlags.component) =
          true
        from initializable)] at done
    exact .inl (done.2 rfl)

/-- Embedded types carry the right summaries as well. -/
theorem of_mem_parts (h : ty.Summarized) {nested : DerivedType} {e : Address}
    (part : .element nested e ∈ ty.parts a) : nested.Summarized := by
  obtain ⟨c, mem, shape, embedded⟩ := exists_embedded_of_mem_parts part
  exact h.of_component mem (Component.derivedType?_of_embedded? embedded)

/-- A type whose instances are filled with zeros does not initialize itself. -/
theorem initializesItself_of_isZeroFilled (h : ty.Summarized) (zeros : ty.isZeroFilled) :
    ty.initializesItself = false := by
  by_contra itself
  rw [isZeroFilled, h.fillFlags_of_initializesItself (by simpa using itself)] at zeros
  cases zeros

/-- A type that initializes itself, but has neither an image nor code for the context, does
    nothing. -/
theorem defaultSteps_of_initializesItself (h : ty.Summarized) (itself : ty.initializesItself)
    (noImage : ty.image = none) (noEntry : ty.initializerEntry? context = none) :
    ty.defaultSteps context a = [] := by
  rw [defaultSteps_eq a noImage noEntry, isZeroFilled, isFilledByComponent,
    h.fillFlags_of_initializesItself itself]
  rfl

end Summarized

variable {fixed : FixedStores}

/-- Without a default value there is nothing to do, in the plain recursion either. -/
theorem plainEffects_of_not_initializable {ty : DerivedType} {a : Address} (h : ty.Summarized)
    (nothing : ty.isInitializable = false) : ty.plainEffects context a = [] := by
  obtain ⟨plain, noZeros, noVisit⟩ := isInitializable_eq_false_iff.mp nothing
  rw [plainEffects_of_parts (noImage_of_initializesItself plain)
    (noEntry_of_initializesItself plain),
    List.flatMap_eq_nil_iff]
  intro p part
  cases p with
  | slot s =>
    have zeros := h.isZeroFilled_of_slot plain part
    rw [noZeros] at zeros
    cases zeros
  | element nested e =>
    have := sizeOf_of_mem_parts part
    cases initializable : nested.isInitializable with
    | false => exact plainEffects_of_not_initializable (h.of_mem_parts part) initializable
    | true =>
      have filled := h.filled_of_element plain part initializable
      rw [noVisit, noZeros] at filled
      rcases filled with visit | ⟨_, zeros⟩
      · cases visit
      · cases zeros
termination_by sizeOf ty

/-- Where the default value is all zeros, the plain recursion stores nothing but zeros. -/
theorem mem_plainEffects_of_isZeroOnly {ty : DerivedType} {a : Address} (h : ty.Summarized)
    (zeroOnly : ty.isZeroOnly) {effect : Effect} (mem : effect ∈ ty.plainEffects context a) :
    ∃ s, effect = .store ⟨s, .replicate descriptorBytes 0⟩ := by
  obtain ⟨zeros, noVisit⟩ : ty.isZeroFilled = true ∧ ty.isFilledByComponent = false := by
    simpa [isZeroOnly] using zeroOnly
  have plain := h.initializesItself_of_isZeroFilled zeros
  rw [plainEffects_of_parts (noImage_of_initializesItself plain)
    (noEntry_of_initializesItself plain)] at mem
  obtain ⟨p, part, mem⟩ := List.mem_flatMap.mp mem
  cases p with
  | slot s => exact ⟨s, List.mem_singleton.mp mem⟩
  | element nested e =>
    have := sizeOf_of_mem_parts part
    have inside : effect ∈ nested.plainEffects context e := mem
    cases initializable : nested.isInitializable with
    | false =>
      rw [plainEffects_of_not_initializable (h.of_mem_parts part) initializable] at inside
      cases inside
    | true =>
      have filled := h.filled_of_element plain part initializable
      rw [noVisit] at filled
      rcases filled with visit | ⟨zeroOnly, _⟩
      · cases visit
      · exact mem_plainEffects_of_isZeroOnly (h.of_mem_parts part) zeroOnly inside
termination_by sizeOf ty

/-- Where the default value is all zeros, the plain recursion leaves zeros. -/
theorem last?_plainEffects_of_isZeroOnly (h : ty.Summarized) (zeroOnly : ty.isZeroOnly)
    {b : Address} {value : UInt8}
    (there : Effect.last? fixed (ty.plainEffects context a) b = some value) :
    value = 0 :=
  Effect.eq_zero_of_last? (fun _ mem => mem_plainEffects_of_isZeroOnly h zeroOnly mem) there

end DerivedType

end DerivedTypes
