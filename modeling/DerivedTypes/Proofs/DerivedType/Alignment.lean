import DerivedTypes.Proofs.DerivedType.LayoutVerdict

namespace DerivedTypes

/-!
# Alignments

Every alignment is a power of two: that of a descriptor, and that of an intrinsic value, whatever
its kind. So the largest alignment among the components of a type is a multiple of all of them.

* `TypeCode.isPowerOfTwo_alignment`, `DerivedType.isPowerOfTwo_alignment`: alignments are powers of
  two;
* `Component.alignment_dvd`: what is aligned for a type is aligned for each of its components;
* `Component.alignment_dvd_offset`: so is the offset of each component of an accepted type.
-/

/-- Of two powers of two, the smaller one divides the larger one. -/
theorem dvd_of_isPowerOfTwo_of_le {m n : Nat} (small : m.isPowerOfTwo) (large : n.isPowerOfTwo)
    (le : m ≤ n) :
    m ∣ n := by
  obtain ⟨i, rfl⟩ := small
  obtain ⟨j, rfl⟩ := large
  exact Nat.pow_dvd_pow 2 ((Nat.pow_le_pow_iff_right (by decide)).mp le)

/-- The larger one of two powers of two is a multiple of both. -/
theorem isPowerOfTwo_max {m n : Nat} (h : m.isPowerOfTwo) (h' : n.isPowerOfTwo) :
    (max m n).isPowerOfTwo ∧ m ∣ max m n ∧ n ∣ max m n := by
  have power : (max m n).isPowerOfTwo := by
    rcases Nat.le_total m n with le | le
    · rwa [Nat.max_eq_right le]
    · rwa [Nat.max_eq_left le]
  exact ⟨power, dvd_of_isPowerOfTwo_of_le h power (Nat.le_max_left ..),
    dvd_of_isPowerOfTwo_of_le h' power (Nat.le_max_right ..)⟩

/-- The largest of several powers of two is a multiple of all of them. -/
theorem isPowerOfTwo_foldr_max {alignments : List Nat} (h : ∀ n ∈ alignments, n.isPowerOfTwo) :
    (alignments.foldr max 1).isPowerOfTwo ∧ ∀ n ∈ alignments, n ∣ alignments.foldr max 1 := by
  induction alignments with
  | nil => exact ⟨Nat.isPowerOfTwo_one, fun n mem => nomatch mem⟩
  | cons n rest ih =>
    obtain ⟨power, multiple⟩ := ih fun m mem => h m (List.mem_cons_of_mem _ mem)
    obtain ⟨power', first, others⟩ := isPowerOfTwo_max (h n List.mem_cons_self) power
    refine ⟨power', fun m mem => ?_⟩
    rcases List.mem_cons.mp mem with rfl | mem
    · exact first
    · exact Nat.dvd_trans (multiple m mem) others

/-- A byte with a single bit is a power of two. -/
theorem TypeCode.isPowerOfTwo_toNat {k : UInt8} (h : TypeCode.isPowerOfTwo k = true) :
    k.toNat.isPowerOfTwo := by
  rw [TypeCode.isPowerOfTwo, Bool.and_eq_true, bne_iff_ne, beq_iff_eq] at h
  obtain ⟨nonzero, single⟩ := h
  have positive : k.toNat ≠ 0 := fun zero => nonzero (UInt8.toNat_inj.mp zero)
  have one : (1 : UInt8) ≤ k := UInt8.le_iff_toNat_le.mpr (Nat.one_le_iff_ne_zero.mpr positive)
  rw [← Nat.and_sub_one_eq_zero_iff_isPowerOfTwo positive]
  have bits := congrArg UInt8.toNat single
  rwa [UInt8.toNat_and, UInt8.toNat_sub_of_le _ _ one] at bits

/-- Every type code asks for a power of two. -/
theorem TypeCode.isPowerOfTwo_alignment (t : TypeCode) : t.alignment.isPowerOfTwo := by
  have intrinsic : (if TypeCode.isPowerOfTwo t.kind then t.kind.toNat else 1).isPowerOfTwo := by
    split
    · next single => exact isPowerOfTwo_toNat single
    · exact Nat.isPowerOfTwo_one
  unfold alignment
  cases t.category with
  | integer | real | complex | logical => exact intrinsic
  | character | other | derived => exact Nat.isPowerOfTwo_one

/-- So does every component, by its own type code. -/
theorem Component.isPowerOfTwo_ownAlignment (c : Component) : c.ownAlignment.isPowerOfTwo := by
  unfold ownAlignment
  split
  · exact ⟨3, rfl⟩
  · split <;> exact TypeCode.isPowerOfTwo_alignment _

namespace DerivedType

/-- The alignment of a type is a power of two, and a multiple of the alignments of its
    components. -/
theorem isPowerOfTwo_alignment {ty : DerivedType} (summarized : ty.Summarized) :
    ty.alignment.isPowerOfTwo ∧ ∀ c ∈ ty.components, c.alignment ∣ ty.alignment := by
  have components : ∀ n ∈ ty.components.map (·.alignment), n.isPowerOfTwo := by
    intro n mem
    obtain ⟨c, there, rfl⟩ := List.mem_map.mp mem
    unfold Component.alignment
    split
    · exact c.isPowerOfTwo_ownAlignment
    · next shape nested embedded =>
      have := sizeOf_embedded there embedded
      exact (isPowerOfTwo_alignment
        (summarized.of_component there (Component.derivedType?_of_embedded? embedded))).1
  obtain ⟨power, multiple⟩ := isPowerOfTwo_foldr_max components
  rw [summarized.alignment_eq]
  exact ⟨power, fun c mem => multiple _ (List.mem_map_of_mem mem)⟩
termination_by sizeOf ty

end DerivedType

namespace Component

variable {ty nested : DerivedType} {c : Component} {shape : Descriptor}

/-- A descriptor component is aligned like a descriptor. -/
theorem alignment_of_isDescriptor (slot : c.isDescriptor = true) :
    c.alignment = descriptorAlignment := by
  have none : c.embedded? = none := embedded?_eq_none_iff.mpr (.inl slot)
  rw [alignment, none]
  exact if_pos slot

/-- An embedded component is aligned like its type. -/
theorem alignment_of_embedded (embedded : c.embedded? = some (shape, nested)) :
    c.alignment = nested.alignment := by
  rw [alignment, embedded]

/-- The offset of a component of an accepted type is aligned for the component. -/
theorem alignment_dvd_offset (accepted : ty.checkLayout = .ok ()) (mem : c ∈ ty.components) :
    c.alignment ∣ c.offset.toNat :=
  (DerivedType.checkLayout_eq_ok_iff_keepsLayout.mp accepted).aligned c mem

/-- A descriptor component of an accepted type has no static descriptor. -/
theorem isDescriptor_eq_false_of_checkLayout (accepted : ty.checkLayout = .ok ())
    (mem : c ∈ ty.components) (static : c.static?.isSome = true) : c.isDescriptor = false := by
  have kept := (DerivedType.checkLayout_eq_ok_iff_keepsLayout.mp accepted).descriptors c mem
  exact Bool.eq_false_iff.mpr fun slot => by simp [kept slot] at static

end Component

end DerivedTypes
