import DerivedTypes.Machine.DefaultValue
import DerivedTypes.Proofs.DerivedType.LayoutVerdict
import DerivedTypes.Proofs.Teardown.Levels

namespace DerivedTypes

/-!
# Where the data of the extended type lie

Default initialization finds the data of the extended type where the parent field is: at the offset
of the first component, as often as its static descriptor says. A teardown goes on with the extended
type at the address of the instance itself, once.

* `DerivedType.exists_parentField_of_checkLayout`: an accepted extension names the type that it
  extends;
* `DerivedType.parentField_at_instance_iff`: the two ways lead to the same place exactly if the
  parent field is one element at offset zero;
* `DerivedType.parentField_shifted`: accepted layouts do not ensure this.
-/

/-- The elements begin at an address `offset` bytes further, so there is one at the address itself
    and no other exactly if there is one element and `offset` is zero. -/
theorem Descriptor.elementAddresses_eq_singleton_iff {d : Descriptor} {a : Address} {offset : Nat} :
    d.elementAddresses (a + offset) = [a] ↔ offset = 0 ∧ d.elementCount = 1 := by
  constructor
  · intro here
    have one : d.elementCount = 1 := by
      have length := congrArg List.length here
      simpa [elementAddresses] using length
    rw [elementAddresses, one] at here
    have first : a + offset + 0 * d.elementSize.toNat = a := (List.cons.inj here).1
    have same := congrArg Address.offset first
    simp only [Address.offset_add] at same
    exact ⟨by omega, one⟩
  · rintro ⟨rfl, one⟩
    rw [elementAddresses, one]
    simp

namespace DerivedType

variable {ty : DerivedType}

/-- The first component of an accepted extension holds elements of the type that it extends. -/
theorem exists_parentField_of_checkLayout (accepted : ty.checkLayout = .ok ())
    (extended : ty.isExtension = true) :
    ∃ c rest shape parent, ty.components = c :: rest ∧ c.isParent = true ∧
      c.embedded? = some (shape, parent) := by
  rw [isExtension] at extended
  cases components : ty.components with
  | nil => simp [components] at extended
  | cons c rest =>
    rw [components, List.head?_cons, Option.any_some] at extended
    obtain ⟨shape, parent, embedded⟩ :=
      (checkLayout_eq_ok_iff_keepsLayout.mp accepted).exists_embedded
        (by simp [components]) extended
    exact ⟨c, rest, shape, parent, rfl, extended, embedded⟩

/-- Default initialization of an accepted extension visits the elements of its parent field, and a
    teardown goes on with the extended type at the address of the instance. Wherever the instance
    is, the parent field has this one element and no other exactly if its offset is zero and its
    static descriptor counts one. -/
theorem parentField_at_instance_iff (accepted : ty.checkLayout = .ok ())
    (extended : ty.isExtension = true) :
    ∃ c rest shape parent, ty.components = c :: rest ∧ c.embedded? = some (shape, parent) ∧
      ty.base? = some parent ∧
      (∀ context a, c.defaultSteps context a =
        if parent.isInitializable then
          (shape.elementAddresses (a + c.offset.toNat)).flatMap (parent.defaultSteps context)
        else []) ∧
      (∀ context a finalize, ty.scalarSteps context a finalize =
        ty.finalizeSteps context a finalize ++ ty.componentSteps context a finalize ++
          .enterParent ty parent :: parent.scalarSteps context a finalize) ∧
      ∀ a, shape.elementAddresses (a + c.offset.toNat) = [a] ↔ c.offset = 0 ∧
      shape.elementCount = 1 := by
  obtain ⟨c, rest, shape, parent, components, isParent, embedded⟩ :=
    exists_parentField_of_checkLayout accepted extended
  obtain ⟨plain, static, type⟩ := Component.embedded?_eq_some_iff.mp embedded
  have named := Component.derivedType?_of_embedded? embedded
  refine ⟨c, rest, shape, parent, components, embedded, ?_, fun context a => ?_,
    fun context a finalize => ?_, fun a => ?_⟩
  · rw [base?, components, List.head?_cons, Option.filter_some, if_pos isParent,
      Option.bind_some, named]
  · rw [Component.defaultSteps, if_neg (by simp [plain]), static]
    dsimp only
    rw [Descriptor.defaultSteps, type]
  · refine scalarSteps_of_parent extended ?_ a finalize
    rw [parent_eq_ok_iff, components, List.head?_cons, Option.bind_some, named]
  · rw [Descriptor.elementAddresses_eq_singleton_iff, ← UInt64.toNat_inj]
    rfl

end DerivedType

/-! ### Extensions of a file -/

namespace Files

/-- A procedure that the host has code for. -/
def setup : Procedure := .initializer "setup" ⟨some ⟨0⟩, none⟩

/-- A finalizer that the host has code for. -/
def close : Procedure := .elementalFinal "close" ⟨some ⟨1⟩, none⟩

/-- Eight bytes that are set up and closed. -/
def file : DerivedType :=
  { number := 0, name := "file", parameters := [], components := [],
    procedures := [setup, close], image := none,
    size := 8, isSequence := false, isBindC := false : DerivedType }.summarize

/-- A file with a number. -/
def log : DerivedType :=
  { number := 1, name := "log", parameters := [],
    components := [.parent "file" (.row file 1 8), .intrinsic "line" ⟨.integer, 8⟩ 8],
    procedures := [],
    image := none, size := 16, isSequence := false, isBindC := false : DerivedType }.summarize

/-- A file behind eight other bytes. -/
def shifted : DerivedType :=
  { number := 1, name := "shifted", parameters := [],
    components := [{ Component.parent "file" (.row file 1 8) with offset := 8 }], procedures := [],
    image := none, size := 16, isSequence := false, isBindC := false : DerivedType }.summarize

end Files

namespace DerivedType

open Files

/-- The parent field of a log is where the log is. -/
theorem parentField_log : log.checkLayout = .ok () ∧ log.isExtension = true ∧ ∃ c rest shape parent,
    log.components = c :: rest ∧ c.embedded? = some (shape, parent) ∧ c.offset = 0 ∧
    shape.elementCount = 1 ∧
    ∀ a, shape.elementAddresses (a + c.offset.toNat) = [a] := by
  have accepted : log.checkLayout = .ok () := by decide
  obtain ⟨c, rest, shape, parent, components, embedded, _, _, _, iff⟩ :=
    parentField_at_instance_iff accepted (by decide)
  obtain ⟨rfl, _⟩ := List.cons.inj components
  cases embedded
  have one : (Descriptor.row file 1 8).elementCount = 1 := by decide
  exact ⟨accepted, by decide, _, _, _, _, rfl, rfl, rfl, one, fun a => (iff a).mpr ⟨rfl, one⟩⟩

/-- An extension is accepted although its parent field begins behind the instance: the file is set
    up at one address, and closed at another one. -/
theorem parentField_shifted : shifted.checkLayout = .ok () ∧ shifted.isExtension = true ∧
    shifted.base? = some file ∧
    (Descriptor.row file 1 8).elementAddresses ((⟨.buffer 0, 0⟩ : Address) + 8) = [⟨.buffer 0, 8⟩] ∧
    shifted.defaultSteps .host ⟨.buffer 0, 0⟩ =
      [.enterComponents shifted, .callInitializer file setup ⟨0⟩ ⟨.buffer 0, 8⟩] ∧
    shifted.scalarSteps .host ⟨.buffer 0, 0⟩ true =
      [.enterComponents shifted, .enterParent shifted file,
        .finalizeScalar file close ⟨1⟩ ⟨.buffer 0, 0⟩,
        .enterComponents file] := by
  have elements : (Descriptor.row file 1 8).elementAddresses ((⟨.buffer 0, 0⟩ : Address) + 8) =
      [⟨.buffer 0, 8⟩] := by decide
  have setUp (a : Address) : file.defaultSteps .host a = [.callInitializer file setup ⟨0⟩ a] := by
    rw [defaultSteps]
    rfl
  have closed (a : Address) :
      file.scalarSteps .host a true =
      [.finalizeScalar file close ⟨1⟩ a, .enterComponents file] := by
    rw [scalarSteps_of_not_extension rfl, componentSteps_eq]
    rfl
  refine ⟨by decide, rfl, rfl, elements, ?_, ?_⟩
  · -- The components of the instance lead to the elements of its parent field.
    have field :
        (Component.defaultSteps .host { Component.parent "file" (.row file 1 8) with offset := 8 }
        ⟨.buffer 0, 0⟩) = [.callInitializer file setup ⟨0⟩ ⟨.buffer 0, 8⟩] := by
      have visited := congrArg (List.flatMap (file.defaultSteps .host)) elements
      rw [List.flatMap_singleton, setUp] at visited
      exact visited
    rw [defaultSteps_eq _ rfl rfl]
    exact congrArg (fun steps => DefaultStep.enterComponents shifted :: (steps ++ [])) field
  · rw [scalarSteps_of_parent rfl rfl, componentSteps_eq, closed]
    rfl

end DerivedType

end DerivedTypes
