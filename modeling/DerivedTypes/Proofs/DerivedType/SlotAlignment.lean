import DerivedTypes.Proofs.DerivedType.Alignment
import DerivedTypes.Proofs.Ownership.Releases

namespace DerivedTypes

/-!
# Where descriptors lie

`DerivedType.checkLayout` looks at the offset of each component, so the first element of a component
is aligned where the instance is. The other elements are as many bytes further as their type is
long, and nobody compares the size of a type with its alignment. A descriptor lies where it should
in every element exactly if elements that hold descriptors, and come in twos or more, have a size
that is a multiple of the alignment of descriptors.

* `DerivedType.Reaches`: the descriptors that an operation comes to, with `mem_slots_iff` and
  `mem_released_scalarSteps_iff` for default initialization and for teardowns;
* `DerivedType.StridesAligned`: what is asked of the sizes of elements;
* `DerivedType.slots_aligned_iff`: it is what makes all these descriptors aligned;
* `DerivedType.book_misaligned`: accepted tables that leave a descriptor misaligned.
-/

open TeardownStep

/-! ### Descriptors inside an instance -/

/-- How an operation goes from an instance to the instances inside it. -/
inductive Descent where
  /-- Through every component, the field of the extended type like any other. So goes default
      initialization. -/
  | fields
  /-- Through every component but the field of the extended type, and on with that type at the same
      address. So goes a teardown. -/
  | levels

/-- An operation goes through a component. -/
def Descent.Enters : Descent → Component → Prop
  | fields, _ => True
  | levels, c => c.isParent = false

namespace DerivedType

/-- An operation on the instance of a type at an address comes to the descriptor at `s`. -/
inductive Reaches (way : Descent) : DerivedType → Address → Address → Prop
  | own {ty : DerivedType} {a : Address} {c : Component} (mem : c ∈ ty.components)
      (entered : way.Enters c)
      (slot : c.isDescriptor = true) : Reaches way ty a (a + c.offset.toNat)
  | element {ty nested : DerivedType} {a s : Address} {c : Component} {shape : Descriptor} {j : Nat}
      (mem : c ∈ ty.components) (entered : way.Enters c)
      (embedded : c.embedded? = some (shape, nested))
      (lt : j < shape.elementCount)
      (inside : Reaches way nested (a + (c.offset.toNat + j * shape.elementSize.toNat)) s) :
      Reaches way ty a s
  | parent {ty parent : DerivedType} {a s : Address} (goes : way = .levels)
      (extended : ty.isExtension = true)
      (named : ty.parent = .ok parent) (inside : Reaches way parent a s) : Reaches way ty a s

/-- Wherever an operation on elements of a type comes to descriptors and there are several elements
    in a row, the size of an element is a multiple of the alignment of descriptors. -/
inductive StridesAligned (way : Descent) : DerivedType → Prop
  | intro {ty : DerivedType}
      (rows : ∀ c ∈ ty.components, way.Enters c → ∀ shape nested,
        c.embedded? = some (shape, nested) →
        2 ≤ shape.elementCount → (∃ a s, nested.Reaches way a s) →
        descriptorAlignment ∣ nested.size.toNat)
      (elements : ∀ c ∈ ty.components, way.Enters c → ∀ shape nested,
        c.embedded? = some (shape, nested) →
        0 < shape.elementCount → StridesAligned way nested)
      (parents : way = .levels → ty.isExtension = true → ∀ parent, ty.parent = .ok parent →
        StridesAligned way parent) :
      StridesAligned way ty

variable {way : Descent} {ty : DerivedType} {a s : Address}

/-- Operations on another instance of the type come to descriptors at the same offset. -/
theorem Reaches.exists_offset (h : ty.Reaches way a s) :
    ∃ k : Nat, s = a + k ∧ ∀ b : Address, ty.Reaches way b (b + k) := by
  induction h with
  | @own _ _ c mem entered slot => exact ⟨c.offset.toNat, rfl, fun b => .own mem entered slot⟩
  | @element _ _ _ _ c shape j mem entered embedded lt _ ih =>
    obtain ⟨k, rfl, everywhere⟩ := ih
    refine ⟨_, Address.add_add .., fun b => .element mem entered embedded lt ?_⟩
    have there := everywhere (b + (c.offset.toNat + j * shape.elementSize.toNat))
    rwa [Address.add_add] at there
  | parent goes extended named _ ih =>
    obtain ⟨k, rfl, everywhere⟩ := ih
    exact ⟨k, rfl, fun b => .parent goes extended named (everywhere b)⟩

end DerivedType

/-- An operation on the instance at an address comes to the descriptor at `s` through one
    component. -/
def Component.Reaches (way : Descent) (c : Component) (a s : Address) : Prop :=
  c.isDescriptor = true ∧ s = a + c.offset.toNat ∨
    ∃ shape nested, c.embedded? = some (shape, nested) ∧
      ∃ e ∈ shape.elementAddresses (a + c.offset.toNat), nested.Reaches way e s

namespace DerivedType

variable {way : Descent} {ty : DerivedType} {a s : Address}

/-- An operation comes to descriptors through components, or with the extended type. -/
theorem reaches_iff (way : Descent) (ty : DerivedType) (a s : Address) : ty.Reaches way a s ↔
    (∃ c ∈ ty.components, way.Enters c ∧ c.Reaches way a s) ∨
      way = .levels ∧ ty.isExtension = true ∧ ∃ parent, ty.parent = .ok parent ∧
      parent.Reaches way a s := by
  constructor
  · intro h
    cases h with
    | own mem entered slot => exact .inl ⟨_, mem, entered, .inl ⟨slot, rfl⟩⟩
    | element mem entered embedded lt inside =>
      refine .inl ⟨_, mem, entered, .inr ⟨_, _, embedded, _, ?_, inside⟩⟩
      exact Descriptor.mem_elementAddresses.mpr ⟨_, lt, (Address.add_add ..).symm⟩
    | parent goes extended named inside => exact .inr ⟨goes, extended, _, named, inside⟩
  · rintro (⟨c, mem, entered, ⟨slot, rfl⟩ | ⟨shape, nested, embedded, e, element, inside⟩⟩ |
      ⟨goes, extended, parent, named, inside⟩)
    · exact .own mem entered slot
    · obtain ⟨j, lt, rfl⟩ := Descriptor.mem_elementAddresses.mp element
      rw [Address.add_add] at inside
      exact .element mem entered embedded lt inside
    · exact .parent goes extended named inside

/-! ### Default initialization -/

/-- Default initialization comes to all descriptors that lie in an instance. -/
theorem mem_slots_iff (ty : DerivedType) (a s : Address) :
    s ∈ ty.slots a ↔ ty.Reaches .fields a s := by
  have each : ∀ c ∈ ty.components, s ∈ c.slots a ↔ c.Reaches .fields a s := by
    intro c mem
    obtain slot | ⟨shape, nested, embedded⟩ | ⟨plain, none⟩ := c.parts_cases
    · have none : c.embedded? = none := Component.embedded?_eq_none_iff.mpr (.inl slot)
      simp [Component.slots_of_isDescriptor slot, Component.Reaches, slot, none]
    · have := sizeOf_embedded mem embedded
      have plain := (Component.embedded?_eq_some_iff.mp embedded).1
      simp [Component.slots_of_embedded embedded, Component.Reaches, plain, embedded,
        mem_slots_iff nested]
    · simp [Component.slots_of_plain plain none, Component.Reaches, plain, none]
  rw [slots_eq_components, reaches_iff, List.mem_flatMap]
  constructor
  · rintro ⟨c, mem, inside⟩
    exact .inl ⟨c, mem, trivial, (each c mem).mp inside⟩
  · rintro (⟨c, mem, _, inside⟩ | ⟨other, _⟩)
    · exact ⟨c, mem, (each c mem).mpr inside⟩
    · cases other
termination_by sizeOf ty

/-! ### Teardowns -/

mutual

/-- The components of an instance release the descriptors that a teardown comes to through them. -/
theorem mem_released_componentSteps_iff (context : ExecutionContext) (ty : DerivedType)
    (a s : Address) (finalize : Bool) :
    s ∈ released (ty.componentSteps context a finalize) ↔
      ∃ c ∈ ty.components, c.isParent = false ∧ c.Reaches .levels a s := by
  have entered : released (ty.componentSteps context a finalize) =
      ty.components.flatMap fun c => released (c.teardownSteps context ty a finalize) := by
    rw [componentSteps_eq, ← released_flatMap]
    rfl
  rw [entered, List.mem_flatMap]
  refine exists_congr fun c => and_congr_right fun mem => ?_
  by_cases parent : c.isParent
  · simp [Component.teardownSteps_of_isParent parent, parent]
  · have own : c.isParent = false := by simpa using parent
    obtain slot | ⟨shape, nested, embedded⟩ | ⟨plain, none⟩ := c.parts_cases
    · have none : c.embedded? = none := Component.embedded?_eq_none_iff.mpr (.inl slot)
      rw [Component.teardownSteps_of_isDescriptor own slot]
      simp [released, slot?, Component.Reaches, own, slot, none]
    · have := sizeOf_embedded mem embedded
      have plain := (Component.embedded?_eq_some_iff.mp embedded).1
      rw [Component.teardownSteps_of_embedded own embedded,
        mem_released_levelSteps_iff context nested]
      simp [Component.Reaches, own, plain, embedded]
    · rw [Component.teardownSteps_of_plain plain none]
      simp [Component.Reaches, plain, none]
termination_by 2 * sizeOf ty

/-- All levels of an array together release the descriptors that a teardown of each element comes
    to. -/
theorem mem_released_levelSteps_iff (context : ExecutionContext) (ty : DerivedType) (d : Descriptor)
    (data s : Address) (finalize : Bool) :
    s ∈ released (ty.levelSteps context d data finalize) ↔
      ∃ e ∈ d.elementAddresses data, ty.Reaches .levels e s := by
  have here : s ∈ (d.elementAddresses data).flatMap (fun e =>
    released (ty.componentSteps context e finalize)) ↔
      ∃ e ∈ d.elementAddresses data, ∃ c ∈ ty.components, c.isParent = false ∧
      c.Reaches .levels e s := by
    simp only [List.mem_flatMap, mem_released_componentSteps_iff context ty]
  simp only [reaches_iff .levels ty, Descent.Enters]
  cases extended : ty.isExtension with
  | false =>
    rw [levelSteps_of_not_extension extended, released_level, here]
    simp
  | true =>
    cases named : ty.parent with
    | ok parent =>
      have := sizeOf_parent named
      have above : s ∈ released
          (.enterParent ty parent :: parent.levelSteps context d data finalize) ↔
          ∃ e ∈ d.elementAddresses data, parent.Reaches .levels e s :=
        mem_released_levelSteps_iff context parent d data s finalize
      rw [levelSteps_of_parent extended named, released_append, List.mem_append,
        released_level, here, above]
      simp [and_or_left, exists_or]
    | error link =>
      rw [levelSteps_of_orphan extended named, released_append, released_level,
        List.mem_append, here]
      simp [released, slot?]
termination_by 2 * sizeOf ty + 1

end

/-- The teardown of an instance releases the descriptors that it comes to, whatever the context and
    whether or not it finalizes. -/
theorem mem_released_scalarSteps_iff (context : ExecutionContext) (ty : DerivedType) (a s : Address)
    (finalize : Bool) :
    s ∈ released (ty.scalarSteps context a finalize) ↔ ty.Reaches .levels a s := by
  have here : s ∈ released (ty.finalizeSteps context a finalize ++
    ty.componentSteps context a finalize) ↔
      ∃ c ∈ ty.components, c.isParent = false ∧ c.Reaches .levels a s := by
    rw [released_append, released_finalizeSteps, List.nil_append, mem_released_componentSteps_iff]
  simp only [reaches_iff .levels ty, Descent.Enters]
  cases extended : ty.isExtension with
  | false =>
    rw [scalarSteps_of_not_extension extended, here]
    simp
  | true =>
    cases named : ty.parent with
    | ok parent =>
      have := sizeOf_parent named
      have above : s ∈ released (.enterParent ty parent :: parent.scalarSteps context a finalize) ↔
          parent.Reaches .levels a s := mem_released_scalarSteps_iff context parent a s finalize
      rw [scalarSteps_of_parent extended named, released_append, List.mem_append, here, above]
      simp
    | error link =>
      rw [scalarSteps_of_orphan extended named, released_append, List.mem_append, here]
      simp [released, slot?]
termination_by sizeOf ty

end DerivedType

/-! ### Alignment -/

/-- A table passes its check, and its static descriptors give elements the size of their type. -/
structure DerivedType.Accepted (ty : DerivedType) : Prop where
  layout : ty.checkLayout = .ok ()
  elementSize_eq : ∀ c ∈ ty.components, ∀ shape nested, c.embedded? = some (shape, nested) →
    shape.elementSize = nested.size

namespace DerivedType

variable {way : Descent} {ty parent : DerivedType} {a s : Address} {p : Placement}

/-- A component of an accepted type that names a type holds elements of that type. -/
theorem Accepted.exists_embedded (accepted : ty.Accepted) {c : Component} (mem : c ∈ ty.components)
    (named : c.derivedType? = some parent) : ∃ shape, c.embedded? = some (shape, parent) := by
  obtain ⟨shape, static, named⟩ := Option.bind_eq_some_iff.mp named
  refine ⟨shape, Component.embedded?_eq_some_iff.mpr ⟨?_, static, named⟩⟩
  exact Component.isDescriptor_eq_false_of_checkLayout accepted.layout mem (by simp [static])

/-- The extended type lies inside the first component. -/
theorem Accepted.exists_parentField (accepted : ty.Accepted) (named : ty.parent = .ok parent) :
    ∃ c ∈ ty.components, ∃ shape, c.embedded? = some (shape, parent) := by
  obtain ⟨c, first, named⟩ := Option.bind_eq_some_iff.mp (parent_eq_ok_iff.mp named)
  have mem := List.mem_of_mem_head? first
  exact ⟨c, mem, accepted.exists_embedded mem named⟩

/-- An instance with descriptors inside is aligned for descriptors. -/
theorem Reaches.dvd_alignment (h : ty.Reaches way a s) (summarized : ty.Summarized)
    (accepted : ty.Throughout Accepted) : descriptorAlignment ∣ ty.alignment := by
  induction h with
  | own mem _ slot =>
    rw [← Component.alignment_of_isDescriptor slot]
    exact (isPowerOfTwo_alignment summarized).2 _ mem
  | element mem _ embedded _ _ ih =>
    have inside := ih (summarized.of_component mem (Component.derivedType?_of_embedded? embedded))
      (accepted.of_embedded mem embedded)
    rw [← Component.alignment_of_embedded embedded] at inside
    exact Nat.dvd_trans inside ((isPowerOfTwo_alignment summarized).2 _ mem)
  | parent _ _ named _ ih =>
    obtain ⟨c, mem, shape, embedded⟩ := accepted.own.exists_parentField named
    have inside := ih (summarized.of_component mem (Component.derivedType?_of_embedded? embedded))
      (accepted.of_embedded mem embedded)
    rw [← Component.alignment_of_embedded embedded] at inside
    exact Nat.dvd_trans inside ((isPowerOfTwo_alignment summarized).2 _ mem)

/-- Where the instance is aligned for descriptors and so are the sizes of elements, all descriptors
    are. -/
theorem Reaches.aligned (h : ty.Reaches way a s) (summarized : ty.Summarized)
    (accepted : ty.Throughout Accepted) (strides : ty.StridesAligned way)
    (here : descriptorAlignment ∣ p.number a) :
    descriptorAlignment ∣ p.number s := by
  induction h with
  | own mem _ slot =>
    have offset := Component.alignment_dvd_offset accepted.own.layout mem
    rw [Component.alignment_of_isDescriptor slot] at offset
    rw [p.number_add]
    exact Nat.dvd_add here offset
  | @element _ nested _ _ c shape j mem entered embedded lt inside ih =>
    cases strides with
    | intro rows elements _ =>
      have innerSummarized :=
        summarized.of_component mem (Component.derivedType?_of_embedded? embedded)
      have innerAccepted := accepted.of_embedded mem embedded
      refine ih innerSummarized innerAccepted
        (elements c mem entered shape nested embedded (by omega)) ?_
      have offset := Component.alignment_dvd_offset accepted.own.layout mem
      rw [Component.alignment_of_embedded embedded] at offset
      have before := Nat.dvd_trans (inside.dvd_alignment innerSummarized innerAccepted) offset
      rw [p.number_add]
      refine Nat.dvd_add here (Nat.dvd_add before ?_)
      -- The first element has nothing before it, and where there are others the size is asked to
      -- fit.
      rcases Nat.eq_zero_or_pos j with rfl | later
      · rw [Nat.zero_mul]
        exact Nat.dvd_zero _
      · rw [accepted.own.elementSize_eq c mem shape nested embedded]
        exact Nat.dvd_mul_left_of_dvd
          (rows c mem entered shape nested embedded (by omega) ⟨_, _, inside⟩) j
  | parent goes extended named _ ih =>
    cases strides with
    | intro _ _ parents =>
      obtain ⟨c, mem, shape, embedded⟩ := accepted.own.exists_parentField named
      exact ih (summarized.of_component mem (Component.derivedType?_of_embedded? embedded))
        (accepted.of_embedded mem embedded) (parents goes extended _ named) here

/-- Where all descriptors are aligned, so are the sizes of elements. -/
theorem stridesAligned_of_aligned {ty : DerivedType} {a : Address}
    (accepted : ty.Throughout Accepted)
    (aligned : ∀ s, ty.Reaches way a s → descriptorAlignment ∣ p.number s) :
    ty.StridesAligned way := by
  refine .intro (fun c mem entered shape nested embedded several some => ?_)
    (fun c mem entered shape nested embedded pos => ?_) fun goes extended parent named => ?_
  · -- The same descriptor in the first two elements.
    obtain ⟨b, s, inside⟩ := some
    obtain ⟨k, _, everywhere⟩ := inside.exists_offset
    have first := aligned _ (.element mem entered embedded (j := 0) (by omega) (everywhere _))
    have second := aligned _ (.element mem entered embedded (j := 1) (by omega) (everywhere _))
    simp only [p.number_add] at first second
    rw [← accepted.own.elementSize_eq c mem shape nested embedded]
    simp only [descriptorAlignment] at first second ⊢
    omega
  · have := sizeOf_embedded mem embedded
    exact stridesAligned_of_aligned (accepted.of_embedded mem embedded) fun s inside =>
      aligned s (.element mem entered embedded pos inside)
  · have := sizeOf_parent named
    obtain ⟨c, mem, shape, embedded⟩ := accepted.own.exists_parentField named
    exact stridesAligned_of_aligned (accepted.of_embedded mem embedded) fun s inside =>
      aligned s (.parent goes extended named inside)
termination_by sizeOf ty

/-- Of an instance whose address is aligned for its type, the tables accepted and the elements as
    long as their types say: all descriptors that default initialization comes to are aligned
    exactly if elements with descriptors that it finds in rows have an aligned size, and the same
    holds of the descriptors that a teardown comes to. -/
theorem slots_aligned_iff (summarized : ty.Summarized) (accepted : ty.Throughout Accepted)
    (here : ty.alignment ∣ p.number a) :
    ((∀ s ∈ ty.slots a, descriptorAlignment ∣ p.number s) ↔ ty.StridesAligned .fields) ∧
    ∀ context finalize, (∀ s ∈ released (ty.scalarSteps context a finalize),
      descriptorAlignment ∣ p.number s) ↔
      ty.StridesAligned .levels := by
  have general (way : Descent) :
      (∀ s, ty.Reaches way a s → descriptorAlignment ∣ p.number s) ↔ ty.StridesAligned way :=
    ⟨stridesAligned_of_aligned accepted, fun strides s reached =>
      reached.aligned summarized accepted strides
      (Nat.dvd_trans (reached.dvd_alignment summarized accepted) here)⟩
  refine ⟨?_, fun context finalize => ?_⟩
  · simpa only [mem_slots_iff] using general .fields
  · simpa only [mem_released_scalarSteps_iff] using general .levels

end DerivedType

/-! ### Books -/

namespace Books

/-- A descriptor and a number, in so many bytes. -/
def page (bytes : UInt64) : DerivedType :=
  { number := 0, name := "page", parameters := [],
    components := [.descriptor "text" .derived 0, .intrinsic "number" ⟨.integer, 4⟩ 456],
    procedures := [],
    image := none, size := bytes, isSequence := false, isBindC := false : DerivedType }.summarize

/-- Two pages. -/
def book (bytes : UInt64) : DerivedType :=
  { number := 1, name := "book", parameters := [],
    components := [.derived "pages" (.row (page bytes) 2 bytes) 0],
    procedures := [], image := none, size := 2 * bytes, isSequence := false, isBindC := false :
    DerivedType }.summarize

variable {bytes : UInt64}

/-- A page has no embedded components. -/
theorem embedded?_page {c : Component} (mem : c ∈ (page bytes).components) :
    c.embedded? = none := by
  obtain rfl | rfl : c = .descriptor "text" .derived 0 ∨
      c = .intrinsic "number" ⟨.integer, 4⟩ 456 := by
    simpa [page] using mem
  · rfl
  · rfl

/-- The pages of a book are embedded. -/
theorem embedded?_pages (bytes : UInt64) :
    (Component.derived "pages" (.row (page bytes) 2 bytes) 0).embedded? =
      some (.row (page bytes) 2 bytes, page bytes) :=
  Component.embedded?_eq_some_iff.mpr ⟨rfl, rfl, Descriptor.derivedType?_row ..⟩

/-- They are the only embedded component. -/
theorem embedded?_book {c : Component} {shape : Descriptor} {nested : DerivedType}
    (mem : c ∈ (book bytes).components) (embedded : c.embedded? = some (shape, nested)) :
    shape = .row (page bytes) 2 bytes ∧ nested = page bytes := by
  obtain rfl : c = .derived "pages" (.row (page bytes) 2 bytes) 0 := by simpa [book] using mem
  rw [embedded?_pages] at embedded
  cases embedded
  exact ⟨rfl, rfl⟩

/-- A page is built by `DerivedType.summarize`. -/
theorem summarized_page (bytes : UInt64) : (page bytes).Summarized := by
  refine DerivedType.summarized_summarize fun c mem inner named => ?_
  obtain rfl | rfl : c = .descriptor "text" .derived 0 ∨
      c = .intrinsic "number" ⟨.integer, 4⟩ 456 := by
    simpa [page] using mem
  · cases named
  · cases named

/-- So is a book. -/
theorem summarized_book (bytes : UInt64) : (book bytes).Summarized := by
  refine DerivedType.summarized_summarize fun c mem inner named => ?_
  obtain rfl : c = .derived "pages" (.row (page bytes) 2 bytes) 0 := by simpa [book] using mem
  rw [Component.derivedType?_of_embedded? (embedded?_pages bytes)] at named
  cases named
  exact summarized_page bytes

/-- Books are accepted throughout if the two tables are accepted. -/
theorem accepted_book (onPage : (page bytes).checkLayout = .ok ())
    (onBook : (book bytes).checkLayout = .ok ()) :
    (book bytes).Throughout DerivedType.Accepted := by
  refine .intro ⟨onBook, fun c mem shape nested embedded => ?_⟩
    fun c mem shape nested embedded => ?_
  · obtain ⟨rfl, rfl⟩ := embedded?_book mem embedded
    rfl
  · obtain ⟨_, rfl⟩ := embedded?_book mem embedded
    refine .of_plain ⟨onPage, fun c mem shape nested embedded => ?_⟩ fun c mem => embedded?_page mem
    rw [embedded?_page mem] at embedded
    cases embedded

/-- Pages of an aligned size keep every descriptor of a book aligned. -/
theorem stridesAligned_book (way : Descent) (aligned : descriptorAlignment ∣ bytes.toNat) :
    (book bytes).StridesAligned way := by
  refine .intro (fun c mem _ shape nested embedded _ _ => ?_)
    (fun c mem _ shape nested embedded _ => ?_)
    fun _ extended _ _ => nomatch extended
  · obtain ⟨_, rfl⟩ := embedded?_book mem embedded
    exact aligned
  · obtain ⟨_, rfl⟩ := embedded?_book mem embedded
    refine .intro (fun c mem _ shape nested embedded _ _ => ?_)
      (fun c mem _ shape nested embedded _ => ?_)
      fun _ extended _ _ => nomatch extended
    all_goals
      rw [embedded?_page mem] at embedded
      cases embedded

/-- The descriptor of the second page. -/
theorem reaches_second_page (way : Descent) (a : Address) :
    (book bytes).Reaches way a (a + (0 + 1 * bytes.toNat) + 0) := by
  have entered (c : Component) (own : c.isParent = false) : way.Enters c := by
    cases way
    · trivial
    · exact own
  have two : 1 < (Descriptor.row (page bytes) 2 bytes).elementCount := Nat.lt_succ_self 1
  have text : Component.descriptor "text" .derived 0 ∈ (page bytes).components := List.mem_cons_self
  exact .element List.mem_cons_self (entered _ rfl) (embedded?_pages bytes) two
    (.own text (entered _ rfl) rfl)

end Books

namespace DerivedType

open Books

/-- Pages of 464 bytes follow each other at aligned addresses. -/
theorem book_aligned :
    (book 464).Summarized ∧ (book 464).Throughout Accepted ∧
    (book 464).alignment ∣ (default : Placement).number ⟨.buffer 0, 0⟩ ∧
    (∀ s ∈ (book 464).slots ⟨.buffer 0, 0⟩, descriptorAlignment ∣ (default : Placement).number s) ∧
    ∀ s ∈ released ((book 464).scalarSteps .host ⟨.buffer 0, 0⟩ true),
      descriptorAlignment ∣ (default : Placement).number s := by
  have accepted : (book 464).Throughout Accepted := accepted_book (by decide) (by decide)
  have here : (book 464).alignment ∣ (default : Placement).number ⟨.buffer 0, 0⟩ := by decide
  obtain ⟨fields, levels⟩ := slots_aligned_iff (summarized_book 464) accepted here
  exact ⟨summarized_book 464, accepted, here, fields.mpr (stridesAligned_book _ (by decide)),
    (levels .host true).mpr (stridesAligned_book _ (by decide))⟩

/-- Pages of 460 bytes are accepted, and so is a book of them. The descriptor of its second page is
    misaligned wherever the book is aligned, and both default initialization and teardowns come to
    it. -/
theorem book_misaligned :
    (book 460).Summarized ∧ (book 460).Throughout Accepted ∧
    (book 460).alignment ∣ (default : Placement).number ⟨.buffer 0, 0⟩ ∧
    ∃ s ∈ (book 460).slots ⟨.buffer 0, 0⟩,
      s ∈ released ((book 460).scalarSteps .host ⟨.buffer 0, 0⟩ true) ∧
      ¬ descriptorAlignment ∣ (default : Placement).number s := by
  refine ⟨summarized_book 460, accepted_book (by decide) (by decide), by decide, _,
    (mem_slots_iff ..).mpr (reaches_second_page .fields _),
    (mem_released_scalarSteps_iff ..).mpr (reaches_second_page .levels _), by decide⟩

end DerivedType

end DerivedTypes
