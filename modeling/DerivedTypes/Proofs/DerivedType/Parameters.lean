import DerivedTypes.Proofs.DerivedType.LayoutVerdict
import DerivedTypes.Proofs.DerivedType.SameType
import Mathlib.Data.List.TakeWhile

namespace DerivedTypes

/-!
# Parameters, and types with the same KIND values

The parameters of a table begin with KIND parameters. In an accepted table all others are LEN
parameters, and each of these has a slot of a descriptor.

Two types with the same names are compared by the values of their KIND parameters as far as both
have any: where one list of values ends, the other is not looked at any more. So the values that are
compared agree (`AgreeWithin`), but one type may have KIND parameters where the other one has LEN
parameters.

* `DerivedType.isKind_of_lt`, `DerivedType.isLen_of_le`: how the parameters of an accepted table are
  divided;
* `DerivedType.typeIs_iff`: what the comparison of types comes to;
* `DerivedType.typeIs_respects_kindValues_iff`: when types that are found equal have equal KIND
  values. Accepted tables need not have them (`DerivedType.typeIs_not_transitive`).
-/

/-! ### The division of the parameters -/

namespace DerivedType

variable {ty a b c : DerivedType} {p : TypeParameter} {i : Nat}

/-- The two kinds of parameters are all parameters, in declaration order. -/
theorem parameters_eq (ty : DerivedType) : ty.kindParameters ++ ty.lenParameters = ty.parameters :=
  List.takeWhile_append_dropWhile

/-- The parameters that are counted as KIND parameters are such. -/
theorem isKind_of_mem_kindParameters (mem : p ∈ ty.kindParameters) : p.isKind :=
  List.mem_takeWhile_imp mem

/-- A parameter of an accepted table that is not among the leading KIND parameters has a slot of a
    descriptor. -/
theorem exists_slot_of_checkLayout (accepted : ty.checkLayout = .ok ())
    (mem : p ∈ ty.lenParameters) :
    ∃ slot, p.slot? = some slot ∧ slot < lenSlots :=
  (checkLayout_eq_ok_iff_keepsLayout.mp accepted).parameters p mem

/-- The first parameters are KIND parameters. -/
theorem isKind_of_lt (there : ty.parameters[i]? = some p) (lt : i < ty.kindParameters.length) :
    p.isKind := by
  rw [← parameters_eq, List.getElem?_append_left lt] at there
  exact isKind_of_mem_kindParameters (List.mem_of_getElem? there)

/-- In an accepted table, the others are LEN parameters. -/
theorem isLen_of_le (accepted : ty.checkLayout = .ok ()) (there : ty.parameters[i]? = some p)
    (le : ty.kindParameters.length ≤ i) : p.isLen := by
  rw [← parameters_eq, List.getElem?_append_right le] at there
  obtain ⟨slot, same, _⟩ := exists_slot_of_checkLayout accepted (List.mem_of_getElem? there)
  rw [TypeParameter.isLen, same, Option.isSome_some]

/-- Which of the parameters of an accepted table are KIND parameters: as many as are counted, and
    the first ones. -/
theorem map_isKind_parameters (accepted : ty.checkLayout = .ok ()) :
    ty.parameters.map (·.isKind) =
      .replicate ty.kindParameters.length true ++ .replicate ty.lenParameters.length false := by
  rw [← parameters_eq, List.map_append]
  congr 1
  · exact List.eq_replicate_iff.mpr
      ⟨List.length_map _, by simpa using fun p mem => isKind_of_mem_kindParameters mem⟩
  · refine List.eq_replicate_iff.mpr ⟨List.length_map _, List.forall_mem_map.mpr fun p mem => ?_⟩
    obtain ⟨slot, same, _⟩ := exists_slot_of_checkLayout accepted mem
    rw [TypeParameter.isKind, same, Option.isNone_some]

/-- Accepted tables of the same type have the same parameters as KIND parameters exactly if they
    have as many. -/
theorem map_isKind_eq_iff (acceptedA : a.checkLayout = .ok ()) (acceptedB : b.checkLayout = .ok ())
    (same : a.sameTypeAs b) :
    a.parameters.map (·.isKind) = b.parameters.map (·.isKind) ↔
      a.kindParameters.length = b.kindParameters.length := by
  have all : a.parameters.length = b.parameters.length := by
    have parameters : a.parameters.map (·.name) = b.parameters.map (·.name) :=
      congrArg (·.2.1) (sameTypeAs_iff.mp same)
    simpa using congrArg List.length parameters
  rw [map_isKind_parameters acceptedA, map_isKind_parameters acceptedB]
  constructor
  · intro sorts
    simpa [List.count_replicate] using congrArg (List.count true) sorts
  · intro kinds
    rw [← parameters_eq, ← parameters_eq b, List.length_append, List.length_append] at all
    rw [kinds, show a.lenParameters.length = b.lenParameters.length by omega]

end DerivedType

/-! ### Lists that agree as far as both go -/

/-- Two lists have the same member at each position that both of them have. -/
def AgreeWithin {α : Type} (xs ys : List α) : Prop :=
  ∀ (i : Nat) (x y : α), xs[i]? = some x → ys[i]? = some y → x = y

namespace AgreeWithin

variable {α : Type} {xs ys zs : List α}

/-- A list agrees with itself. -/
theorem refl (xs : List α) : AgreeWithin xs xs :=
  fun _ _ _ first second => Option.some.inj (first.symm.trans second)

/-- Agreement has no direction. -/
theorem symm (h : AgreeWithin xs ys) : AgreeWithin ys xs :=
  fun i x y first second => (h i y x second first).symm

/-- Lists that agree as far as both go are the same if neither goes further. -/
theorem eq_iff (h : AgreeWithin xs ys) : xs = ys ↔ xs.length = ys.length := by
  refine ⟨congrArg List.length, fun length => List.ext_getElem length fun i lt lt' => ?_⟩
  exact h i _ _ (List.getElem?_eq_getElem lt) (List.getElem?_eq_getElem lt')

/-- Two lists that agree with a third one agree with each other as far as this one goes. What they
    have beyond its end is not bound by it. -/
theorem trans_iff (h : AgreeWithin xs ys) (h' : AgreeWithin ys zs) :
    AgreeWithin xs zs ↔ ∀ (i : Nat) (x z : α), ys.length ≤ i → xs[i]? = some x →
    zs[i]? = some z → x = z := by
  refine ⟨fun agree i x z _ => agree i x z, fun beyond i x z first third => ?_⟩
  rcases Nat.lt_or_ge i ys.length with lt | le
  · have second : ys[i]? = some ys[i] := List.getElem?_eq_getElem lt
    exact (h i x _ first second).trans (h' i _ z second third)
  · exact beyond i x z le first third

/-- A comparison of pairs goes as far as both lists go. -/
theorem all_zip_iff [BEq α] [LawfulBEq α] :
    (xs.zip ys).all (fun (x, y) => x == y) ↔ AgreeWithin xs ys := by
  rw [List.all_eq_true]
  constructor
  · intro all i x y first second
    have pair : (xs.zip ys)[i]? = some (x, y) := List.getElem?_zip_eq_some.mpr ⟨first, second⟩
    exact eq_of_beq (all _ (List.mem_of_getElem? pair))
  · rintro agree ⟨x, y⟩ mem
    obtain ⟨i, pair⟩ := List.mem_iff_getElem?.mp mem
    obtain ⟨first, second⟩ := List.getElem?_zip_eq_some.mp pair
    exact beq_iff_eq.mpr (agree i x y first second)

end AgreeWithin

/-! ### Types with the same KIND values -/

namespace DerivedType

variable {a b c : DerivedType}

/-- The values of the KIND parameters, in order. -/
def kindValues (ty : DerivedType) : List Subscript :=
  ty.kindParameters.map (·.value)

/-- Types are found equal if they have the same names, and the KIND values that both have are the
    same. -/
theorem typeIs_iff : a.typeIs b ↔ a.sameTypeAs b ∧ AgreeWithin a.kindValues b.kindValues := by
  rw [← AgreeWithin.all_zip_iff, kindValues, kindValues, List.zip_map, List.all_map,
    typeIs, Bool.and_eq_true]
  rfl

/-- A type is itself. -/
theorem typeIs_refl (a : DerivedType) : a.typeIs a :=
  typeIs_iff.mpr ⟨sameTypeAs_equivalence.refl a, .refl _⟩

/-- What one type is to another one, the other one is to it. -/
theorem typeIs_symm (h : a.typeIs b) : b.typeIs a := by
  obtain ⟨same, agree⟩ := typeIs_iff.mp h
  exact typeIs_iff.mpr ⟨sameTypeAs_equivalence.symm same, agree.symm⟩

/-- Two types that are found equal to a third one are found equal if they agree beyond the KIND
    parameters of this one. -/
theorem typeIs_trans_iff (h : a.typeIs b) (h' : b.typeIs c) :
    a.typeIs c ↔ ∀ (i : Nat) (x y : Subscript), b.kindParameters.length ≤ i →
      a.kindValues[i]? = some x →
      c.kindValues[i]? = some y → x = y := by
  obtain ⟨same, agree⟩ := typeIs_iff.mp h
  obtain ⟨same', agree'⟩ := typeIs_iff.mp h'
  rw [typeIs_iff, agree.trans_iff agree', kindValues, kindValues, kindValues, List.length_map]
  exact and_iff_right (sameTypeAs_equivalence.trans same same')

/-- Accepted types that are found equal have equal KIND values exactly if they have the same
    parameters as KIND parameters. -/
theorem kindValues_eq_iff (acceptedA : a.checkLayout = .ok ()) (acceptedB : b.checkLayout = .ok ())
    (h : a.typeIs b) :
    a.kindValues = b.kindValues ↔ a.parameters.map (·.isKind) = b.parameters.map (·.isKind) := by
  obtain ⟨same, agree⟩ := typeIs_iff.mp h
  rw [map_isKind_eq_iff acceptedA acceptedB same, agree.eq_iff, kindValues, kindValues,
    List.length_map, List.length_map]

/-- Among accepted tables, types that are found equal have as many KIND parameters, with equal
    values, exactly if they have the same parameters as KIND parameters. Where this is so, to be
    found equal is an equivalence. -/
theorem typeIs_respects_kindValues_iff {family : DerivedType → Prop}
    (accepted : ∀ ty, family ty → ty.checkLayout = .ok ()) :
    (∀ a : DerivedType, a.typeIs a) ∧ (∀ a b : DerivedType, a.typeIs b → b.typeIs a) ∧
    (∀ a b : DerivedType, a.typeIs b ↔ a.sameTypeAs b ∧ AgreeWithin a.kindValues b.kindValues) ∧
    (∀ a b c : DerivedType, a.typeIs b → b.typeIs c →
      (a.typeIs c ↔ ∀ (i : Nat) (x y : Subscript), b.kindParameters.length ≤ i →
        a.kindValues[i]? = some x →
        c.kindValues[i]? = some y → x = y)) ∧
    ((∀ a b, family a → family b → a.typeIs b → a.kindValues = b.kindValues) ↔
      ∀ a b, family a → family b → a.typeIs b →
      a.parameters.map (·.isKind) = b.parameters.map (·.isKind)) ∧
    ((∀ a b, family a → family b → a.typeIs b →
      a.parameters.map (·.isKind) = b.parameters.map (·.isKind)) →
      Equivalence fun a b : { ty // family ty } => a.val.typeIs b.val = true) := by
  have sorts (a b : DerivedType) (inA : family a) (inB : family b) (h : a.typeIs b) :
      a.kindValues = b.kindValues ↔ a.parameters.map (·.isKind) = b.parameters.map (·.isKind) :=
    kindValues_eq_iff (accepted a inA) (accepted b inB) h
  refine ⟨typeIs_refl, fun _ _ => typeIs_symm, fun _ _ => typeIs_iff, fun _ _ _ =>
    typeIs_trans_iff, ?_, ?_⟩
  · constructor
    · exact fun equal a b inA inB h => (sorts a b inA inB h).mp (equal a b inA inB h)
    · exact fun alike a b inA inB h => (sorts a b inA inB h).mpr (alike a b inA inB h)
  · intro alike
    refine ⟨fun a => typeIs_refl a.val, fun h => typeIs_symm h, fun {a b c} h h' => ?_⟩
    -- Along two comparisons the values stay the same as a whole, not only as far as they were
    -- compared.
    have first := (sorts _ _ a.property b.property h).mpr (alike _ _ a.property b.property h)
    have second := (sorts _ _ b.property c.property h').mpr (alike _ _ b.property c.property h')
    have same := sameTypeAs_equivalence.trans (typeIs_iff.mp h).1 (typeIs_iff.mp h').1
    exact typeIs_iff.mpr ⟨same, first.trans second ▸ .refl _⟩

end DerivedType

/-! ### Vectors -/

namespace Vectors

/-- A type with one parameter and no data. -/
def vector (number : Nat) (k : TypeParameter) : DerivedType :=
  { number, name := "vector", parameters := [k], components := [], procedures := [],
    image := none, size := 8,
    isSequence := false, isBindC := false : DerivedType }.summarize

/-- A vector of a fixed kind. -/
def ofKind (number : Nat) (k : Subscript) : DerivedType :=
  vector number (.kind "k" ⟨.integer, 4⟩ k)

/-- A vector whose parameter differs from instance to instance. -/
def ofLength : DerivedType :=
  vector 1 (.len "k" ⟨.integer, 4⟩ 4 0)

end Vectors

namespace DerivedType

open Vectors

/-- Among vectors of kinds 4 and 8, to be found equal is an equivalence, and it is to have the same
    kind. -/
theorem typeIs_vectors : (∀ ty ∈ [ofKind 0 4, ofKind 2 8], ty.checkLayout = .ok ()) ∧
    (∀ a b, a ∈ [ofKind 0 4, ofKind 2 8] → b ∈ [ofKind 0 4, ofKind 2 8] → a.typeIs b →
      a.kindValues = b.kindValues) ∧
    Equivalence fun a b : { ty // ty ∈ [ofKind 0 4, ofKind 2 8] } => a.val.typeIs b.val = true := by
  have accepted : ∀ ty ∈ [ofKind 0 4, ofKind 2 8], ty.checkLayout = .ok () := by
    simp only [List.forall_mem_cons]
    exact ⟨by decide, by decide, nofun⟩
  obtain ⟨_, _, _, _, iff, equivalence⟩ := typeIs_respects_kindValues_iff accepted
  have alike : ∀ a b, a ∈ [ofKind 0 4, ofKind 2 8] → b ∈ [ofKind 0 4, ofKind 2 8] → a.typeIs b →
      a.parameters.map (·.isKind) = b.parameters.map (·.isKind) := by
    have kinds : ∀ ty ∈ [ofKind 0 4, ofKind 2 8], ty.parameters.map (·.isKind) = [true] := by
      simp only [List.forall_mem_cons]
      exact ⟨rfl, rfl, nofun⟩
    exact fun a b inA inB _ => (kinds a inA).trans (kinds b inB).symm
  exact ⟨accepted, iff.mpr alike, equivalence alike⟩

/-- A vector of length k is found equal to one of kind 4 and to one of kind 8, which are not
    equal. -/
theorem typeIs_not_transitive :
    (ofKind 0 4).checkLayout = .ok () ∧ ofLength.checkLayout = .ok () ∧
    (ofKind 2 8).checkLayout = .ok () ∧
    (ofKind 0 4).typeIs ofLength ∧ ofLength.typeIs (ofKind 2 8) ∧
    (ofKind 0 4).typeIs (ofKind 2 8) = false ∧
    (ofKind 0 4).kindValues = [4] ∧ ofLength.kindValues = [] := by
  decide

end DerivedType

end DerivedTypes
