import DerivedTypes.Proofs.DerivedType.SlotAlignment

namespace DerivedTypes

/-!
# Alignments of nested types

The alignment of a type is the largest one among its components, and since alignments are powers of
two, it is their least common multiple. Nothing else is needed to go into nested types: what is
aligned for a type is aligned for the components of the type in its first element, and for those of
the type in the first element of these.

* `DerivedType.alignment_dvd_iff`: the alignment of a type is a least common multiple;
* `DerivedType.Places`: the components at any depth that lie in first elements, with their distances
  from the start;
* `Places.alignment_dvd`, `Places.aligned`: they ask for no more than the type does, and where
  tables are accepted, they get it;
* `DerivedType.alignments_compose`: these facts together.
-/

/-- The largest of several numbers divides what all of them divide. -/
theorem foldr_max_dvd {alignments : List Nat} {n : Nat} (h : ∀ m ∈ alignments, m ∣ n) :
    alignments.foldr max 1 ∣ n := by
  induction alignments with
  | nil => exact Nat.one_dvd n
  | cons m rest ih =>
    have first := h m List.mem_cons_self
    have others := ih fun k mem => h k (List.mem_cons_of_mem _ mem)
    -- The larger one of two numbers is one of them.
    show max m (rest.foldr max 1) ∣ n
    rcases Nat.le_total m (rest.foldr max 1) with le | le
    · rwa [Nat.max_eq_right le]
    · rwa [Nat.max_eq_left le]

namespace DerivedType

/-- Numbers that are aligned for a type are those that are aligned for all of its components. -/
theorem alignment_dvd_iff {ty : DerivedType} (summarized : ty.Summarized) (n : Nat) :
    ty.alignment ∣ n ↔ ∀ c ∈ ty.components, c.alignment ∣ n := by
  constructor
  · intro aligned c mem
    exact Nat.dvd_trans ((isPowerOfTwo_alignment summarized).2 c mem) aligned
  · intro aligned
    rw [summarized.alignment_eq]
    refine foldr_max_dvd fun m mem => ?_
    obtain ⟨c, there, rfl⟩ := List.mem_map.mp mem
    exact aligned c there

/-! ### First elements -/

/-- A component lies so many bytes behind the start of an instance: it belongs to the type of the
    instance, or to that of the first element of one of its components, and so on. All types on the
    way have a property. -/
inductive Places (P : DerivedType → Prop) : DerivedType → Component → Nat → Prop
  | own {ty : DerivedType} {c : Component} (fine : P ty) (mem : c ∈ ty.components) :
      Places P ty c c.offset.toNat
  | first {ty nested : DerivedType} {c inner : Component} {shape : Descriptor}
      {k : Nat} (fine : P ty)
      (mem : c ∈ ty.components) (embedded : c.embedded? = some (shape, nested))
      (inside : Places P nested inner k) :
      Places P ty inner (c.offset.toNat + k)

variable {P Q : DerivedType → Prop} {ty : DerivedType} {c : Component} {k : Nat}

/-- All types on the way have each weaker property. -/
theorem Places.imp (h : ty.Places P c k) (weaker : ∀ ty, P ty → Q ty) : ty.Places Q c k := by
  induction h with
  | own fine mem => exact .own (weaker _ fine) mem
  | first fine mem embedded _ ih => exact .first (weaker _ fine) mem embedded ih

/-- A component at any depth asks for no more than the type does. -/
theorem Places.alignment_dvd (h : ty.Places P c k) (summarized : ty.Summarized) :
    c.alignment ∣ ty.alignment := by
  induction h with
  | own _ mem => exact (isPowerOfTwo_alignment summarized).2 _ mem
  | first _ mem embedded _ ih =>
    have inside := ih (summarized.of_component mem (Component.derivedType?_of_embedded? embedded))
    rw [← Component.alignment_of_embedded embedded] at inside
    exact Nat.dvd_trans inside ((isPowerOfTwo_alignment summarized).2 _ mem)

/-- In an instance of an accepted type that starts where its type asks for it, a component at any
    depth lies where it asks for it, as long as the types on the way are accepted. -/
theorem Places.aligned (h : ty.Places (·.checkLayout = .ok ()) c k) (summarized : ty.Summarized)
    {n : Nat} (here : ty.alignment ∣ n) : c.alignment ∣ n + k := by
  -- The start of the instance is general: it becomes that of the first element.
  induction h generalizing n with
  | own accepted mem =>
    exact Nat.dvd_add ((alignment_dvd_iff summarized n).mp here _ mem)
      (Component.alignment_dvd_offset accepted mem)
  | first accepted mem embedded _ ih =>
    have start := Nat.dvd_add ((alignment_dvd_iff summarized n).mp here _ mem)
      (Component.alignment_dvd_offset accepted mem)
    rw [Component.alignment_of_embedded embedded] at start
    rw [← Nat.add_assoc]
    exact ih (summarized.of_component mem (Component.derivedType?_of_embedded? embedded)) start

end DerivedType

/-- The first element begins where the storage does. -/
theorem Descriptor.eq_of_head?_elementAddresses {d : Descriptor} {data e : Address}
    (first : (d.elementAddresses data).head? = some e) : e = data := by
  unfold elementAddresses at first
  cases count : d.elementCount with
  | zero =>
    rw [count] at first
    cases first
  | succ n =>
    rw [count, List.range_succ_eq_map, List.map_cons, List.head?_cons, Nat.zero_mul] at first
    exact (Option.some.inj first).symm

namespace DerivedType

/-- Alignments compose. The alignment of a type is a power of two, and the least common multiple of
    those of its components. It is a multiple of the alignment of every component that lies in first
    elements, at any depth. So, as far as types are accepted, every such component lies where it
    asks for it if the instance does, and where it holds elements of another type, the first of
    these lies where this type asks for it. -/
theorem alignments_compose {ty : DerivedType} (summarized : ty.Summarized) :
    ty.alignment.isPowerOfTwo ∧
    (∀ n, ty.alignment ∣ n ↔ ∀ c ∈ ty.components, c.alignment ∣ n) ∧
    (∀ c k, ty.Places (fun _ => True) c k → c.alignment ∣ ty.alignment) ∧
    ∀ (p : Placement) (a : Address), ty.alignment ∣ p.number a →
      ∀ c k, ty.Places (·.checkLayout = .ok ()) c k → c.alignment ∣ p.number (a + k) ∧
        ∀ shape nested, c.embedded? = some (shape, nested) →
          ∀ e, (shape.elementAddresses (a + k)).head? = some e → nested.alignment ∣ p.number e := by
  refine ⟨(isPowerOfTwo_alignment summarized).1, alignment_dvd_iff summarized,
    fun c k there => there.alignment_dvd summarized, fun p a here c k there => ?_⟩
  have aligned : c.alignment ∣ p.number (a + k) := by
    rw [p.number_add]
    exact there.aligned summarized here
  refine ⟨aligned, fun shape nested embedded e first => ?_⟩
  rw [Descriptor.eq_of_head?_elementAddresses first, ← Component.alignment_of_embedded embedded]
  exact aligned

end DerivedType

/-! ### Crates -/

namespace Crates

/-- A field of ten bytes, which is aligned anywhere, behind one of sixteen. -/
def grain : DerivedType :=
  { number := 0, name := "grain", parameters := [],
    components := [.intrinsic "mass" ⟨.real, 16⟩ 0, .intrinsic "code" ⟨.integer, 10⟩ 16],
    procedures := [],
    image := none, size := 32, isSequence := false, isBindC := false : DerivedType }.summarize

/-- One grain, after the field of an extended type that is a grain as well. -/
def box : DerivedType :=
  { number := 1, name := "box", parameters := [],
    components := [.parent "grain" (.row grain 1 32), .derived "other" (.row grain 1 32) 32],
    procedures := [],
    image := none, size := 64, isSequence := false, isBindC := false : DerivedType }.summarize

/-- A number, and three boxes. -/
def crate : DerivedType :=
  { number := 2, name := "crate", parameters := [],
    components := [.intrinsic "count" ⟨.integer, 4⟩ 0, .derived "boxes" (.row box 3 64) 16],
    procedures := [],
    image := none, size := 208, isSequence := false, isBindC := false : DerivedType }.summarize

/-- The grains of a box are embedded. -/
theorem embedded?_grains :
    (Component.derived "other" (.row grain 1 32) 32).embedded? = some (.row grain 1 32, grain) :=
  Component.embedded?_eq_some_iff.mpr ⟨rfl, rfl, Descriptor.derivedType?_row ..⟩

/-- The boxes of a crate are embedded. -/
theorem embedded?_boxes :
    (Component.derived "boxes" (.row box 3 64) 16).embedded? = some (.row box 3 64, box) :=
  Component.embedded?_eq_some_iff.mpr ⟨rfl, rfl, Descriptor.derivedType?_row ..⟩

/-- A grain is built by `DerivedType.summarize`. -/
theorem summarized_grain : grain.Summarized := by
  refine DerivedType.summarized_summarize fun c mem inner named => ?_
  obtain rfl | rfl : c = .intrinsic "mass" ⟨.real, 16⟩ 0 ∨
      c = .intrinsic "code" ⟨.integer, 10⟩ 16 := by
    simpa [grain] using mem
  · cases named
  · cases named

/-- So is a box. -/
theorem summarized_box : box.Summarized := by
  refine DerivedType.summarized_summarize fun c mem inner named => ?_
  have named : (Descriptor.row grain 1 32).derivedType? = some inner := by
    obtain rfl | rfl : c = .parent "grain" (.row grain 1 32) ∨
        c = .derived "other" (.row grain 1 32) 32 := by
      simpa [box] using mem
    · exact named
    · exact named
  rw [Descriptor.derivedType?_row] at named
  cases named
  exact summarized_grain

/-- So is a crate. -/
theorem summarized_crate : crate.Summarized := by
  refine DerivedType.summarized_summarize fun c mem inner named => ?_
  obtain rfl | rfl : c = .intrinsic "count" ⟨.integer, 4⟩ 0 ∨
      c = .derived "boxes" (.row box 3 64) 16 := by
    simpa [crate] using mem
  · cases named
  · rw [Component.derivedType?_of_embedded? embedded?_boxes] at named
    cases named
    exact summarized_box

/-- The code of the second grain in the first box. -/
theorem places_code :
    crate.Places (·.checkLayout = .ok ()) (.intrinsic "code" ⟨.integer, 10⟩ 16)
      (16 + (32 + 16)) := by
  have boxes : Component.derived "boxes" (.row box 3 64) 16 ∈ crate.components := .tail _ (.head _)
  have other : Component.derived "other" (.row grain 1 32) 32 ∈ box.components := .tail _ (.head _)
  have code : Component.intrinsic "code" ⟨.integer, 10⟩ 16 ∈ grain.components := .tail _ (.head _)
  exact .first (by decide) boxes embedded?_boxes
    (.first (by decide) other embedded?_grains (.own (by decide) code))

/-- The second grain in the first box. -/
theorem places_other :
    crate.Places (·.checkLayout = .ok ()) (.derived "other" (.row grain 1 32) 32) (16 + 32) := by
  have boxes : Component.derived "boxes" (.row box 3 64) 16 ∈ crate.components := .tail _ (.head _)
  have other : Component.derived "other" (.row grain 1 32) 32 ∈ box.components := .tail _ (.head _)
  exact .first (by decide) boxes embedded?_boxes (.own (by decide) other)

end Crates

namespace DerivedType

open Crates

/-- A crate is aligned as its grains are, whose mass is the widest number in it. In a crate at an
    aligned address, the second grain of the first box is aligned. -/
theorem crate_alignments : crate.Summarized ∧ crate.alignment = 16 ∧ crate.alignment.isPowerOfTwo ∧
    crate.alignment ∣ (default : Placement).number ⟨.buffer 0, 32⟩ ∧
    (Component.intrinsic "code" ⟨.integer, 10⟩ 16).alignment ∣ crate.alignment ∧
    (Component.derived "other" (.row grain 1 32) 32).alignment ∣
    (default : Placement).number ⟨.buffer 0, 80⟩ ∧
    grain.alignment ∣ (default : Placement).number ⟨.buffer 0, 80⟩ := by
  obtain ⟨power, _, deep, aligned⟩ := alignments_compose summarized_crate
  have here : crate.alignment ∣ (default : Placement).number ⟨.buffer 0, 32⟩ := by decide
  obtain ⟨there, elements⟩ := aligned default ⟨.buffer 0, 32⟩ here _ _ places_other
  have code : crate.Places (fun _ => True) (.intrinsic "code" ⟨.integer, 10⟩ 16) (16 + (32 + 16)) :=
    places_code.imp fun _ _ => trivial
  exact ⟨summarized_crate,
    by decide, power, here, deep _ _ code, there, elements _ _ embedded?_grains _ rfl⟩

end DerivedType

end DerivedTypes
