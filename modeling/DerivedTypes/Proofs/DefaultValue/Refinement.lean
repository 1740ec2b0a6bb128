import DerivedTypes.Proofs.DefaultValue.PlainRecursion

namespace DerivedTypes

/-!
# Flags against the plain recursion

An outer fill with zeros may stand for the fills of everything inside. It overwrites nothing that
the plain recursion stores, because what lies in an instance lies side by side and gets its value
after the fill.

* `DerivedType.last?_defaultEffects`: both recursions leave the same bytes where the plain one
  stores, and the flags add nothing but zeros;
* `DerivedType.calls_defaultEffects`: the same initializers are called, in the same order;
* `DerivedType.setDefault_refines_plain`: both facts for runs.
-/

/-! ### What is stored where -/

namespace Part

variable {fixed : FixedStores} {parts : List Part} {effects : Part → List Effect} {b : Address}

/-- Outside all parts, effects inside parts leave nothing. -/
theorem last?_flatMap_of_nowhere
    (inside : ∀ p ∈ parts, ∀ e ∈ effects p, e.Inside fixed p.address p.size)
    (nowhere : ∀ p ∈ parts, ¬ b.InSpan p.address p.size) :
    Effect.last? fixed (parts.flatMap effects) b = none := by
  induction parts with
  | nil => rfl
  | cons p rest ih =>
    have here :=
      Effect.last?_of_not_inSpan (inside p List.mem_cons_self) (nowhere p List.mem_cons_self)
    have later := ih (fun q mem => inside q (List.mem_cons_of_mem _ mem)) fun q mem =>
      nowhere q (List.mem_cons_of_mem _ mem)
    rw [List.flatMap_cons, Effect.last?_append, later, here]
    rfl

/-- In one of several parts that lie apart, effects inside parts leave what the effects on this part
    leave. -/
theorem last?_flatMap_of_mem (apart : parts.Pairwise Apart)
    (inside : ∀ p ∈ parts, ∀ e ∈ effects p, e.Inside fixed p.address p.size) {p : Part}
    (part : p ∈ parts) (here : b.InSpan p.address p.size) :
    Effect.last? fixed (parts.flatMap effects) b = Effect.last? fixed (effects p) b := by
  induction parts with
  | nil => cases part
  | cons q rest ih =>
    obtain ⟨head, tail⟩ := List.pairwise_cons.mp apart
    have insideRest : ∀ p ∈ rest, ∀ e ∈ effects p, e.Inside fixed p.address p.size :=
      fun p mem => inside p (List.mem_cons_of_mem _ mem)
    rw [List.flatMap_cons, Effect.last?_append]
    by_cases first : b.InSpan q.address q.size
    · -- No later part reaches the byte, so the part is the first one.
      have later := last?_flatMap_of_nowhere insideRest fun p mem => head p mem b first
      rcases List.mem_cons.mp part with rfl | mem
      · rw [later, Option.none_or]
      · exact absurd here (head p mem b first)
    · have before := Effect.last?_of_not_inSpan (inside q List.mem_cons_self) first
      rcases List.mem_cons.mp part with rfl | mem
      · exact absurd here first
      · rw [ih tail insideRest mem, before, Option.or_none]

end Part

namespace DerivedType

variable {context : ExecutionContext} {fixed : FixedStores} {ty : DerivedType} {a : Address}

/-- Effects inside the parts of an instance are effects inside the instance. -/
theorem LaidOut.inside_flatMap (h : ty.LaidOut) {effects : Part → List Effect}
    (inside : ∀ p ∈ ty.parts a, ∀ e ∈ effects p, e.Inside fixed p.address p.size) :
    ∀ e ∈ (ty.parts a).flatMap effects, e.Inside fixed a ty.size.toNat := by
  intro e mem
  obtain ⟨p, part, mem⟩ := List.mem_flatMap.mp mem
  obtain ⟨i, begins, fits⟩ := h.exists_offset_of_mem_parts part
  have within := inside p part e mem
  rw [begins] at within
  exact within.mono fits

/-- An initializer stores into its own instance. -/
theorem EffectsInside.inside_call (sound : ty.EffectsInside context fixed) {procedure : Procedure}
    {entry : EntryPoint} (there : ty.initializerEntry? context = some (procedure, entry)) :
    (Effect.call procedure entry a).Inside fixed a ty.size.toNat := by
  intro s mem
  obtain ⟨f, stored, rfl⟩ := List.mem_map.mp mem
  exact ⟨f.1, rfl, sound.inside _ _ there f stored⟩

/-- The plain recursion stays in the instance. -/
theorem inside_plainEffects {ty : DerivedType} {a : Address}
    (sound : ty.Throughout (DefaultSound context fixed)) :
    ∀ e ∈ ty.plainEffects context a, e.Inside fixed a ty.size.toNat := by
  cases image : ty.image with
  | some bytes =>
    rw [plainEffects_of_image image, List.forall_mem_singleton]
    exact Effect.inside_store (Nat.le_of_eq (sound.own.image bytes image))
  | none =>
    cases code : ty.initializerEntry? context with
    | some initializer =>
      rw [plainEffects_of_entry image code, List.forall_mem_singleton]
      exact sound.own.inside_call code
    | none =>
      rw [plainEffects_of_parts image code]
      refine sound.own.laidOut.inside_flatMap fun p part => ?_
      cases p with
      | slot s =>
        rw [Part.plainEffects, List.forall_mem_singleton]
        exact Effect.inside_store (by simp [Part.size])
      | element nested e =>
        have := sizeOf_of_mem_parts part
        exact inside_plainEffects (sound.of_mem_parts part)
termination_by sizeOf ty

/-- Default initialization stays in the instance. -/
theorem inside_defaultEffects (sound : ty.Throughout (EffectsInside context fixed)) :
    ∀ e ∈ ty.defaultEffects context a, e.Inside fixed a ty.size.toNat := by
  intro e mem
  obtain ⟨step, there, mem⟩ := List.mem_flatMap.mp mem
  -- The step belongs to an instance that lies inside this one.
  obtain ⟨inner, _, ⟨sound, i, rfl, le⟩, own⟩ := exists_own_of_mem_defaultSteps
    (P := fun inner b => inner.Throughout (EffectsInside context fixed) ∧
      ∃ i, b = a + i ∧ i + inner.size.toNat ≤ ty.size.toNat)
    (fun outer b nested e ⟨sound, i, begins, le⟩ part => by
      obtain ⟨j, begins', le'⟩ := sound.own.laidOut.exists_offset_of_mem_parts part
      simp only [Part.address, Part.size] at begins' le'
      exact ⟨sound.of_mem_parts part, i + j, by rw [begins', begins, Address.add_add], by omega⟩)
    ⟨sound, 0, rfl, by omega⟩ step there
  refine Effect.Inside.mono (k := inner.size.toNat) ?_ le
  cases own with
  | copyImage image =>
    rw [List.mem_singleton.mp mem]
    exact Effect.inside_store (by simp)
  | callInitializer code =>
    rw [List.mem_singleton.mp mem]
    exact sound.own.inside_call code
  | zeroFill =>
    rw [List.mem_singleton.mp mem]
    exact Effect.inside_store (by simp)
  | enterComponents => cases mem

/-- The plain recursion on a part stays in the part. -/
theorem inside_part_plainEffects (sound : ty.Throughout (DefaultSound context fixed)) :
    ∀ p ∈ ty.parts a, ∀ e ∈ p.plainEffects context, e.Inside fixed p.address p.size := by
  intro p part
  cases p with
  | slot s =>
    rw [Part.plainEffects, List.forall_mem_singleton]
    exact Effect.inside_store (by simp [Part.size])
  | element nested e => exact inside_plainEffects (sound.of_mem_parts part)

/-- Default initialization of an embedded element stays in the element. -/
theorem inside_element_defaultEffects {nested : DerivedType}
    (sound : nested.Throughout (EffectsInside context fixed)) (e : Address) :
    ∀ f ∈ (Part.element nested e).defaultEffects context, f.Inside fixed e nested.size.toNat := by
  rw [Part.defaultEffects_element]
  exact inside_defaultEffects sound

/-- Default initialization of a part stays in the part. -/
theorem inside_part_defaultEffects (sound : ty.Throughout (EffectsInside context fixed)) :
    ∀ p ∈ ty.parts a, ∀ e ∈ p.defaultEffects context, e.Inside fixed p.address p.size := by
  intro p part
  cases p with
  | slot s => simp [Part.defaultEffects]
  | element nested e => exact inside_element_defaultEffects (sound.of_mem_parts part) e

/-! ### Nothing is overwritten -/

/-- What default initialization leaves in an instance whose parts get their default values one by
    one. -/
theorem last?_defaultEffects_of_parts (noImage : ty.image = none)
    (noEntry : ty.initializerEntry? context = none) (b : Address) :
    Effect.last? fixed (ty.defaultEffects context a) b =
      (if ty.isFilledByComponent then
        Effect.last? fixed ((ty.parts a).flatMap (·.defaultEffects context)) b
      else none).or
        (if ty.isZeroFilled then Store.byte? ⟨a, .replicate ty.size.toNat 0⟩ b else none) := by
  rw [defaultEffects_of_parts noImage noEntry, Effect.last?_append]
  congr 1
  · split <;> rfl
  · split <;> rfl

end DerivedType

/-- At an address, effects leave what others leave, and nothing or a zero where these leave
    nothing. -/
def Effect.RefinesAt (fixed : FixedStores) (effects others : List Effect) (b : Address) : Prop :=
  (∀ value, last? fixed others b = some value → last? fixed effects b = some value) ∧
    (last? fixed others b = none → last? fixed effects b = none ∨ last? fixed effects b = some 0)

namespace DerivedType

variable {context : ExecutionContext} {fixed : FixedStores} {ty : DerivedType} {a : Address}

/-- In an embedded element, the default value of the element on top of the outer fill leaves what
    the plain recursion leaves, and nothing or a zero elsewhere. -/
theorem Summarized.refines_element (h : ty.Summarized) {nested : DerivedType} {e b : Address}
    (plain : ty.initializesItself = false) (part : .element nested e ∈ ty.parts a)
    (refines : Effect.RefinesAt fixed (nested.defaultEffects context e)
      (nested.plainEffects context e) b) :
    let inner := if nested.isInitializable then nested.defaultEffects context e else []
    let left := (if ty.isFilledByComponent then Effect.last? fixed inner b else none).or
      (if ty.isZeroFilled then some 0 else none)
    (∀ value, Effect.last? fixed (nested.plainEffects context e) b = some value →
      left = some value) ∧
      (Effect.last? fixed (nested.plainEffects context e) b = none → left = none ∨
        left = some 0) := by
  intro inner left
  cases initializable : nested.isInitializable with
  | false =>
    -- The plain recursion stores nothing here, and only the outer fill is left.
    have nothing : inner = [] := if_neg (by simp [initializable])
    rw [plainEffects_of_not_initializable (h.of_mem_parts part) initializable]
    by_cases zeros : ty.isZeroFilled
    · simp [left, nothing, zeros]
    · simp [left, nothing, zeros]
  | true =>
    have all : inner = nested.defaultEffects context e := if_pos initializable
    obtain ⟨keeps, adds⟩ := refines
    by_cases visit : ty.isFilledByComponent
    · -- The element gets its default value after the outer fill.
      simp only [left, if_pos visit, all]
      refine ⟨fun value there => by rw [keeps value there, Option.some_or], fun nothing => ?_⟩
      rcases adds nothing with left | left
      · by_cases zeros : ty.isZeroFilled
        · simp [left, zeros]
        · simp [left, zeros]
      · simp [left]
    · -- The outer fill is the default value of the element.
      rcases h.filled_of_element plain part initializable with visited | ⟨zeroOnly, zeros⟩
      · exact absurd visited visit
      · have filled : left = some 0 := by
          simp only [left, if_neg visit, if_pos zeros, Option.none_or]
        refine ⟨fun value there => ?_, fun _ => .inr filled⟩
        rw [filled, last?_plainEffects_of_isZeroOnly (h.of_mem_parts part) zeroOnly there]

/-- Default initialization leaves what the plain recursion leaves, and nothing or a zero
    elsewhere. -/
theorem last?_defaultEffects {ty : DerivedType} (h : ty.Summarized)
    (sound : ty.Throughout (DefaultSound context fixed)) (a b : Address) :
    Effect.RefinesAt fixed (ty.defaultEffects context a) (ty.plainEffects context a) b := by
  -- Where both do the same, nothing is to be shown.
  have same {effects : List Effect} : Effect.RefinesAt fixed effects effects b :=
    ⟨fun _ there => there, .inl⟩
  cases image : ty.image with
  | some bytes =>
    rw [defaultEffects_of_image image, plainEffects_of_image image,
      List.take_of_length_le (Nat.le_of_eq (sound.own.image bytes image))]
    exact same
  | none =>
    cases code : ty.initializerEntry? context with
    | some initializer =>
      rw [defaultEffects_of_entry image code, plainEffects_of_entry image code]
      exact same
    | none =>
      have plain := sound.own.initializesItself_eq_false image code
      have apart := sound.own.laidOut.pairwise_parts a
      rw [Effect.RefinesAt, last?_defaultEffects_of_parts image code,
        plainEffects_of_parts image code]
      by_cases somewhere : ∃ p ∈ ty.parts a, b.InSpan p.address p.size
      · obtain ⟨p, part, here⟩ := somewhere
        rw [Part.last?_flatMap_of_mem apart (inside_part_plainEffects sound) part here,
          Part.last?_flatMap_of_mem apart (inside_part_defaultEffects sound.effectsInside) part
            here,
          Store.byte?_zeros (sound.own.laidOut.inSpan_of_part part here)]
        cases p with
        | slot s =>
          -- The outer fill is the fill of the descriptor.
          have zeros := h.isZeroFilled_of_slot plain part
          have filled : Store.byte? ⟨s, .replicate descriptorBytes 0⟩ b = some 0 :=
            Store.byte?_zeros here
          simp [Part.plainEffects, Part.defaultEffects, Effect.last?_store, filled, zeros]
        | element nested e =>
          have := sizeOf_of_mem_parts part
          exact h.refines_element plain part
            (last?_defaultEffects (h.of_mem_parts part) (sound.of_mem_parts part) e b)
      · -- Between the parts there are at most the zeros of the outer fill.
        have nowhere : ∀ p ∈ ty.parts a, ¬ b.InSpan p.address p.size :=
          fun p part here => somewhere ⟨p, part, here⟩
        rw [Part.last?_flatMap_of_nowhere (inside_part_plainEffects sound) nowhere,
          Part.last?_flatMap_of_nowhere (inside_part_defaultEffects sound.effectsInside) nowhere,
          ite_self, Option.none_or]
        refine ⟨fun _ there => (by cases there), fun _ => ?_⟩
        by_cases zeros : ty.isZeroFilled
        · rw [if_pos zeros]
          exact Store.byte?_zeros_cases a b _
        · exact .inl (if_neg zeros)
termination_by sizeOf ty

/-- An outer fill leaves no byte of the instance as it was. -/
theorem exists_last?_of_isZeroFilled (h : ty.Summarized) (zeros : ty.isZeroFilled) {b : Address}
    (inside : b.InSpan a ty.size.toNat) :
    ∃ value, Effect.last? fixed (ty.defaultEffects context a) b = some value := by
  have plain := h.initializesItself_of_isZeroFilled zeros
  rw [last?_defaultEffects_of_parts (noImage_of_initializesItself plain)
    (noEntry_of_initializesItself plain), if_pos zeros, Store.byte?_zeros inside]
  apply Option.isSome_iff_exists.mp
  rw [Option.isSome_or, Option.isSome_some, Bool.or_true]

/-! ### The same calls -/

/-- Fills with zeros call nothing. -/
theorem calls_plainEffects_of_isZeroOnly (h : ty.Summarized) (zeroOnly : ty.isZeroOnly) :
    (ty.plainEffects context a).flatMap (·.calls) = [] := by
  rw [List.flatMap_eq_nil_iff]
  intro effect mem
  obtain ⟨s, rfl⟩ := mem_plainEffects_of_isZeroOnly h zeroOnly mem
  rfl

/-- Default initialization calls the same initializers as the plain recursion, in the same order. -/
theorem calls_defaultEffects {ty : DerivedType} (h : ty.Summarized)
    (sound : ty.Throughout (DefaultSound context fixed)) (a : Address) :
    (ty.defaultEffects context a).flatMap (·.calls) =
    (ty.plainEffects context a).flatMap (·.calls) := by
  cases image : ty.image with
  | some bytes =>
    rw [defaultEffects_of_image image, plainEffects_of_image image]
    rfl
  | none =>
    cases code : ty.initializerEntry? context with
    | some initializer =>
      rw [defaultEffects_of_entry image code, plainEffects_of_entry image code]
    | none =>
      have plain := sound.own.initializesItself_eq_false image code
      have silent : (if ty.isZeroFilled then [Effect.store ⟨a, .replicate ty.size.toNat 0⟩] else
          []).flatMap (·.calls) = [] := by
        split <;> rfl
      rw [defaultEffects_of_parts image code, plainEffects_of_parts image code, List.flatMap_append,
        silent, List.nil_append]
      by_cases visit : ty.isFilledByComponent
      · rw [if_pos visit, List.flatMap_assoc, List.flatMap_assoc]
        refine List.flatMap_congr fun p part => ?_
        cases p with
        | slot s => rfl
        | element nested e =>
          have := sizeOf_of_mem_parts part
          rw [Part.plainEffects, Part.defaultEffects]
          cases initializable : nested.isInitializable with
          | false =>
            rw [plainEffects_of_not_initializable (h.of_mem_parts part) initializable]
            rfl
          | true => exact calls_defaultEffects (h.of_mem_parts part) (sound.of_mem_parts part) e
      · -- No part has a default value but zeros.
        rw [if_neg visit, List.flatMap_assoc, eq_comm, List.flatMap_nil, List.flatMap_eq_nil_iff]
        intro p part
        cases p with
        | slot s => rfl
        | element nested e =>
          rw [Part.plainEffects]
          cases initializable : nested.isInitializable with
          | false =>
            rw [plainEffects_of_not_initializable (h.of_mem_parts part) initializable]
            rfl
          | true =>
            rcases h.filled_of_element plain part initializable with visited | ⟨zeroOnly, _⟩
            · exact absurd visited visit
            · exact calls_plainEffects_of_isZeroOnly (h.of_mem_parts part) zeroOnly
termination_by sizeOf ty

/-! ### Runs -/

/-- Default initialization and the plain recursion both come to an end and call the same
    initializers. Every byte that the plain recursion stores has the same value after both. Default
    initialization leaves the other bytes of the instance as they were or makes them zero, and makes
    them all zero if the flags ask for a fill; outside the instance it changes nothing. -/
theorem setDefault_refines_plain {env : Environment} {M : Machine} (h : ty.Summarized)
    (sound : ty.Throughout (DefaultSound env.context fixed)) (code : env.StoresFixed fixed)
    (room : M.memory.Admits a ty.size.toNat) :
    ∃ flagged plain : Machine,
      ty.setDefault env a M = .ok () flagged ∧
      (ty.plainEffects env.context a).forM (Effect.run env) M = .ok () plain ∧
      flagged.calls = plain.calls ∧
      (∀ b, Effect.Reach fixed (ty.plainEffects env.context a) b →
        flagged.memory.byte? b = plain.memory.byte? b) ∧
      (∀ b : Address, b.InSpan a ty.size.toNat →
        ¬ Effect.Reach fixed (ty.plainEffects env.context a) b →
        (flagged.memory.byte? b = M.memory.byte? b ∨ flagged.memory.byte? b = some 0) ∧
          (ty.isZeroFilled → flagged.memory.byte? b = some 0)) ∧
      (∀ b : Address, ¬ b.InSpan a ty.size.toNat → flagged.memory.byte? b = M.memory.byte? b) := by
  have inside : ∀ e ∈ (ty.defaultSteps env.context a).flatMap (·.effects),
      e.Inside fixed a ty.size.toNat :=
    inside_defaultEffects sound.effectsInside
  obtain ⟨flagged, run, underwent⟩ := DefaultStep.exists_forM code inside room
  obtain ⟨plain, run', underwent'⟩ := Effect.exists_forM code (inside_plainEffects sound) room
  refine ⟨flagged, plain, ?_, run', ?_, ?_, ?_, ?_⟩
  · rw [setDefault_eq]
    exact run
  · rw [underwent.calls, underwent'.calls]
    exact congrArg (M.calls ++ ·) (calls_defaultEffects h sound a)
  · intro b reached
    obtain ⟨value, left⟩ := reached.exists_last?
    have kept := (last?_defaultEffects h sound a b).1 value left
    rw [defaultEffects] at kept
    rw [underwent.byte?, underwent'.byte?, left, kept]
  · intro b inside unreached
    have left := (last?_defaultEffects h sound a b).2 (Effect.last?_eq_none_iff.mpr unreached)
    rw [defaultEffects] at left
    rw [underwent.byte?]
    constructor
    · rcases left with left | left
      · exact .inl (by rw [left, Option.none_or])
      · exact .inr (by rw [left, Option.some_or])
    · intro zeros
      obtain ⟨value, there⟩ :
          ∃ value, Effect.last? fixed (ty.defaultEffects env.context a) b = some value :=
        exists_last?_of_isZeroFilled h zeros inside
      rw [defaultEffects] at there
      rcases left with left | left
      · rw [left] at there
        cases there
      · rw [left, Option.some_or]
  · intro b outside
    have nothing := Effect.last?_of_not_inSpan (inside_defaultEffects sound.effectsInside) outside
    rw [defaultEffects] at nothing
    rw [underwent.byte?, nothing, Option.none_or]

end DerivedType

/-! ### A record -/

namespace DerivedType

namespace Record

/-- Four bytes with an image. -/
def leaf : DerivedType :=
  { number := 0, name := "leaf", parameters := [], components := [], procedures := [],
    image := some [1, 2, 3, 4], size := 4, isSequence := false, isBindC := false :
      DerivedType }.summarize

/-- Four bytes with an initializer. -/
def counter : DerivedType :=
  { number := 1, name := "counter", parameters := [], components := [],
    procedures := [.initializer "init" ⟨some ⟨0⟩, none⟩],
    image := none, size := 4, isSequence := false, isBindC := false : DerivedType }.summarize

/-- One element of a type. -/
def one (ty : DerivedType) : Descriptor :=
  { Descriptor.zeroed with
    elementSize := ty.size, typeCode := .derived, flags := 1, addendumType := some ty }

/-- A descriptor, an element with an image and one with an initializer. -/
def record : DerivedType :=
  { number := 2, name := "record", parameters := [],
    components := [.descriptor "data" .derived 0, .derived "leaf" (one leaf) 456,
      .derived "counter" (one counter) 460],
    procedures := [], image := none, size := 464, isSequence := false, isBindC := false :
    DerivedType }.summarize

/-- The initializer stores a 7 and three zeros. -/
def fixed : FixedStores := fun _ => [(0, [7, 0, 0, 0])]

/-- Where the initializer does what it does. -/
def environment : Environment where
  toAllocator := .exhausted
  context := .host
  traces := false
  code := fun entry argument m =>
    match argument with
    | .scalar a => (argument, m.writeFields a (fixed entry))
    | .array _ => (argument, m)

/-- A buffer of the size of a record, full of nines. -/
def machine : Machine := ⟨.ofBuffers default #[] [.replicate 464 9], #[]⟩

/-- A leaf is built by `DerivedType.summarize`. -/
theorem summarized_leaf : leaf.Summarized := summarized_summarize nofun

/-- So is a counter. -/
theorem summarized_counter : counter.Summarized := summarized_summarize nofun

/-- The types that lie in the record. -/
theorem nested_cases {c : Component} {inner : DerivedType} (mem : c ∈ record.components)
    (named : c.derivedType? = some inner) : inner = leaf ∨ inner = counter := by
  obtain rfl | rfl | rfl : c = .descriptor "data" .derived 0 ∨ c = .derived "leaf" (one leaf) 456 ∨
      c = .derived "counter" (one counter) 460 := by
    simpa [record] using mem
  · cases named
  · exact .inl (Option.some.inj named).symm
  · exact .inr (Option.some.inj named).symm

/-- So is a record. -/
theorem summarized_record : record.Summarized := by
  refine summarized_summarize fun c mem inner named => ?_
  rcases nested_cases mem named with rfl | rfl
  · exact summarized_leaf
  · exact summarized_counter

/-- All types of the example can be worked on. -/
theorem throughout_record : record.Throughout (DefaultSound .host fixed) := by
  refine .intro ⟨⟨.of_ordered (by decide) (by decide) (by decide), nofun⟩, nofun, by decide⟩ ?_
  intro c mem shape inner embedded
  rcases nested_cases mem (Component.derivedType?_of_embedded? embedded) with rfl | rfl
  · refine .intro ⟨⟨.of_ordered (by decide) (by decide) (by decide), nofun⟩, ?_, by decide⟩ nofun
    intro image there
    rw [← Option.some.inj there]
    rfl
  · refine .intro ⟨⟨.of_ordered (by decide) (by decide) (by decide), ?_⟩, nofun, by decide⟩ nofun
    intro procedure entry _ f mem
    rw [List.mem_singleton.mp mem]
    decide

end Record

/-- A record with a descriptor, an image and an initializer, in memory full of nines: the flags and
    the plain recursion give it the same default value. -/
theorem setDefault_record_refines_plain : ∃ flagged plain : Machine,
    Record.record.setDefault Record.environment ⟨.buffer 0, 0⟩ Record.machine = .ok () flagged ∧
    (Record.record.plainEffects .host ⟨.buffer 0, 0⟩).forM
      (Effect.run Record.environment) Record.machine =
      .ok () plain ∧
    flagged.calls = plain.calls ∧
    ∀ b, Effect.Reach Record.fixed (Record.record.plainEffects .host ⟨.buffer 0, 0⟩) b →
      flagged.memory.byte? b = plain.memory.byte? b := by
  have code : Record.environment.StoresFixed Record.fixed := fun _ _ _ _ => rfl
  have room : Record.machine.memory.Admits ⟨.buffer 0, 0⟩ Record.record.size.toNat := by
    refine .inr (Memory.spans_iff.mpr ⟨(List.replicate 464 9).toArray, rfl, ?_⟩)
    rw [List.size_toArray, List.length_replicate]
    decide
  obtain ⟨flagged, plain, run, run', calls, same, _⟩ :=
    setDefault_refines_plain Record.summarized_record Record.throughout_record code room
  exact ⟨flagged, plain, run, run', calls, same⟩

end DerivedType

end DerivedTypes
