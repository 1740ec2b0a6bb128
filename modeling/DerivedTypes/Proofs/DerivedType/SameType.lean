import DerivedTypes.Proofs.DerivedType.Parts
import Mathlib.Data.List.Forall2
import Mathlib.Logic.Relation

namespace DerivedTypes

/-!
# The same type, and types that extend it

Tables of one type agree in their names: those of the type, of its parameters and of its components,
in order. So to be the same type is to have the same names (`DerivedType.sameTypeAs_iff`), which
makes it an equivalence.

A program compares tables where they are. `DerivedType.sameTypeAt` does not look at tables that are
in one place, and goes through the names of others list by list. Extension follows the base types
and compares each one.

* `DerivedType.sameTypeAt_eq`: the places have no influence on what a comparison says;
* `DerivedType.mem_ancestors_iff`, `DerivedType.mem_chain_iff`: the ancestors are all types that
  base types lead to;
* `DerivedType.isExtensionOf_of_mem_ancestors`, `DerivedType.isExtensionOf_congr`: extension goes up
  the chain, and is the same of tables that are the same type;
* `DerivedType.isExtensionOf_coherent`: all of this together.
-/

/-! ### Comparison of names -/

/-- Two lists are equally long, and what is at the same position has the same name. -/
def sameNames {α : Type} (name : α → String) (xs ys : List α) : Bool :=
  xs.length == ys.length && (xs.zip ys).all fun (x, y) => name x == name y

/-- Position by position the names are the same exactly if the lists of names are. -/
theorem sameNames_iff {α : Type} {name : α → String} {xs ys : List α} :
    sameNames name xs ys ↔ xs.map name = ys.map name := by
  calc sameNames name xs ys
      ↔ List.Forall₂ (fun x y => name x = name y) xs ys := by simp [sameNames, List.forall₂_iff_zip]
    _ ↔ List.Forall₂ (fun x y => x = name y) (xs.map name) ys :=
      (List.forall₂_map_left_iff (R := fun x y => x = name y)).symm
    _ ↔ List.Forall₂ (fun x y => x = y) (xs.map name) (ys.map name) :=
      (List.forall₂_map_right_iff (R := (· = ·))).symm
    _ ↔ xs.map name = ys.map name := by rw [List.forall₂_eq_eq_eq]

namespace DerivedType

variable {a b c d : DerivedType}

/-- The names by which a type is known: its own, and those of its parameters and components. -/
def names (ty : DerivedType) : String × List String × List String :=
  (ty.name, ty.parameters.map (·.name), ty.components.map (·.name))

/-- Types are the same if all their names are. -/
theorem sameTypeAs_iff : a.sameTypeAs b ↔ a.names = b.names := by
  simp [sameTypeAs, names, and_assoc]

/-- To be the same type is an equivalence. -/
theorem sameTypeAs_equivalence : Equivalence fun a b : DerivedType => a.sameTypeAs b = true := by
  simp only [sameTypeAs_iff]
  exact eq_equivalence.comap names

/-- Tables of the same type are the same as the same tables. -/
theorem sameTypeAs_congr (same : c.sameTypeAs d) (b : DerivedType) :
    b.sameTypeAs c = b.sameTypeAs d := by
  rw [Bool.eq_iff_iff, sameTypeAs_iff, sameTypeAs_iff, sameTypeAs_iff.mp same]

/-! ### Tables in their places -/

section Places

variable {Place : Type} [DecidableEq Place]

/-- Compares the tables in two places. If it is one place, nothing is looked at. -/
def sameTypeAt (table : Place → DerivedType) (p q : Place) : Bool :=
  if p = q then true
  else
    (table p).name == (table q).name && sameNames (·.name) (table p).parameters
      (table q).parameters &&
      sameNames (·.name) (table p).components (table q).components

/-- Whether the tables are in one place does not matter: the names alone decide. -/
theorem sameTypeAt_eq (table : Place → DerivedType) (p q : Place) :
    sameTypeAt table p q = (table p).sameTypeAs (table q) := by
  unfold sameTypeAt
  by_cases here : p = q
  · rw [if_pos here, here]
    exact (sameTypeAs_equivalence.refl _).symm
  · rw [if_neg here, Bool.eq_iff_iff, sameTypeAs_iff]
    simp [names, sameNames_iff, and_assoc]

/-- Nor does it matter to extension where the types of a chain are, and where the type is that it
    may lead to. -/
theorem any_sameTypeAt (table : Place → DerivedType) {chain : List Place}
    (there : chain.map table = a :: a.ancestors) (q : Place) :
    chain.any (sameTypeAt table · q) = a.isExtensionOf (table q) := by
  simp only [sameTypeAt_eq]
  rw [isExtensionOf, ← there, List.any_map]
  rfl

end Places

/-! ### Base types -/

/-- A type extends another one directly. -/
def HasBase (ty base : DerivedType) : Prop :=
  ty.base? = some base

/-- A type and its ancestors are the types that base types lead to, from the type itself on. -/
theorem mem_chain_iff : b ∈ a :: a.ancestors ↔ Relation.ReflTransGen HasBase a b := by
  -- The induction is on the chain of base types.
  fun_induction ancestors a with
  | case1 ty none =>
    rw [Relation.ReflTransGen.cases_head_iff]
    simp [HasBase, none, eq_comm]
  | case2 ty base named ih =>
    rw [List.mem_cons, ih, Relation.ReflTransGen.cases_head_iff (a := ty)]
    simp [HasBase, named, eq_comm]

/-- The ancestors are the types that one step or more along the base types leads to. -/
theorem mem_ancestors_iff : b ∈ a.ancestors ↔ Relation.TransGen HasBase a b := by
  rw [Relation.TransGen.head'_iff]
  cases named : a.base? with
  | none => simp [ancestors_of_base?_none named, HasBase, named]
  | some base =>
    rw [ancestors_of_base? named, mem_chain_iff]
    simp [HasBase, named]

/-! ### Extension -/

/-- A type extends another one if it, or a type it extends, is the same as that. -/
theorem isExtensionOf_iff : a.isExtensionOf c ↔ ∃ b ∈ a :: a.ancestors, b.sameTypeAs c :=
  List.any_eq_true

/-- A type counts as an extension of itself. -/
theorem isExtensionOf_refl (a : DerivedType) : a.isExtensionOf a :=
  isExtensionOf_iff.mpr ⟨a, List.mem_cons_self, sameTypeAs_equivalence.refl a⟩

/-- What an ancestor extends is extended. -/
theorem isExtensionOf_of_mem_ancestors (mem : b ∈ a.ancestors) (extended : b.isExtensionOf c) :
    a.isExtensionOf c := by
  obtain ⟨e, above, same⟩ := isExtensionOf_iff.mp extended
  have below : Relation.ReflTransGen HasBase a b := mem_chain_iff.mp (List.mem_cons_of_mem a mem)
  exact isExtensionOf_iff.mpr ⟨e, mem_chain_iff.mpr (below.trans (mem_chain_iff.mp above)), same⟩

/-- Tables of the same type are extended by the same types. -/
theorem isExtensionOf_congr (same : c.sameTypeAs d) (a : DerivedType) :
    a.isExtensionOf c = a.isExtensionOf d := by
  unfold isExtensionOf
  simp only [sameTypeAs_congr same]

/-- To be the same type is an equivalence, whether or not tables in one place are looked at. A type
    extends another one exactly if the other one is the same type as itself or as one of its
    ancestors, which are the types that base types lead to. So every type extends itself and all
    that its ancestors extend, and it makes no difference which table of a type it is asked to
    extend. -/
theorem isExtensionOf_coherent :
    Equivalence (fun a b : DerivedType => a.sameTypeAs b = true) ∧
    (∀ (Place : Type) [DecidableEq Place] (table : Place → DerivedType) (p q : Place),
      sameTypeAt table p q = (table p).sameTypeAs (table q) ∧
      ∀ (a : DerivedType) (chain : List Place), chain.map table = a :: a.ancestors →
        chain.any (sameTypeAt table · q) = a.isExtensionOf (table q)) ∧
    (∀ a b : DerivedType, b ∈ a.ancestors ↔ Relation.TransGen HasBase a b) ∧
    (∀ a c : DerivedType, a.isExtensionOf c ↔ ∃ b ∈ a :: a.ancestors, b.sameTypeAs c) ∧
    (∀ a : DerivedType, a.isExtensionOf a) ∧
    (∀ a : DerivedType, ∀ b ∈ a.ancestors, ∀ c, b.isExtensionOf c → a.isExtensionOf c) ∧
    ∀ c d : DerivedType, c.sameTypeAs d → ∀ a : DerivedType, a.isExtensionOf c ↔
    a.isExtensionOf d := by
  refine ⟨sameTypeAs_equivalence, fun Place _ table p q => ?_, fun _ _ => mem_ancestors_iff,
    fun _ _ => isExtensionOf_iff, isExtensionOf_refl, fun _ _ mem _ =>
      isExtensionOf_of_mem_ancestors mem,
    fun c d same a => ?_⟩
  · exact ⟨sameTypeAt_eq table p q, fun _ _ there => any_sameTypeAt table there q⟩
  · rw [isExtensionOf_congr same]

end DerivedType

/-! ### Three generations -/

namespace Creatures

/-- Something with an age. -/
def creature : DerivedType :=
  { number := 0, name := "creature", parameters := [],
    components := [.intrinsic "age" ⟨.integer, 4⟩ 0],
    procedures := [], image := none, size := 4, isSequence := false, isBindC := false :
      DerivedType }.summarize

/-- A creature with wings. -/
def bird : DerivedType :=
  { number := 1, name := "bird", parameters := [],
    components := [.parent "creature" (.row creature 1 4), .intrinsic "wings" ⟨.integer, 4⟩ 4],
    procedures := [],
    image := none, size := 8, isSequence := false, isBindC := false : DerivedType }.summarize

/-- A bird that adds nothing. -/
def duck : DerivedType :=
  { number := 2, name := "duck", parameters := [], components := [.parent "bird" (.row bird 1 8)],
    procedures := [],
    image := none, size := 8, isSequence := false, isBindC := false : DerivedType }.summarize

/-- A creature of another size, with the same names. -/
def fossil : DerivedType :=
  { number := 3, name := "creature", parameters := [],
    components := [.intrinsic "age" ⟨.integer, 8⟩ 0],
    procedures := [], image := none, size := 8, isSequence := false, isBindC := false :
      DerivedType }.summarize

/-- The tables by their numbers. -/
def table (i : Fin 4) : DerivedType :=
  [creature, bird, duck, fossil].get i

/-- A bird is a creature. -/
theorem ancestors_bird : bird.ancestors = [creature] := by
  rw [DerivedType.ancestors_of_base? (show bird.base? = some creature from rfl),
    DerivedType.ancestors_of_base?_none rfl]

/-- A duck is a bird and a creature. -/
theorem ancestors_duck : duck.ancestors = [bird, creature] := by
  rw [DerivedType.ancestors_of_base? (show duck.base? = some bird from rfl), ancestors_bird]

end Creatures

open Creatures in
/-- A duck extends a creature, as a bird does, and so it extends a fossil. -/
theorem DerivedType.duck_extends_fossil :
    duck.ancestors = [bird, creature] ∧ bird.isExtensionOf creature ∧ creature.sameTypeAs fossil ∧
    duck.isExtensionOf creature ∧ duck.isExtensionOf fossil ∧
    [2, 1, 0].map table = duck :: duck.ancestors ∧ [2, 1, 0].any (sameTypeAt table · 3) = true := by
  obtain ⟨_, places, _, iff, _, above, congr⟩ := isExtensionOf_coherent
  have bird_mem : bird ∈ duck.ancestors := by simp [ancestors_duck]
  have base : creature ∈ bird :: bird.ancestors := by simp [ancestors_bird]
  have extended : bird.isExtensionOf creature := (iff _ _).mpr ⟨creature, base, rfl⟩
  have same : creature.sameTypeAs fossil := by decide
  have fossil' := (congr _ _ same duck).mp (above _ _ bird_mem _ extended)
  have chain : [2, 1, 0].map table = duck :: duck.ancestors := by rw [ancestors_duck]; rfl
  exact ⟨ancestors_duck, extended, same, above _ _ bird_mem _ extended, fossil', chain,
    ((places (Fin 4) table 3 3).2 duck _ chain).trans fossil'⟩

end DerivedTypes
