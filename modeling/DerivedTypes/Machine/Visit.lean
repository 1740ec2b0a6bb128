import DerivedTypes.Descriptor.Shape
import DerivedTypes.Machine.Basic

namespace DerivedTypes

/-!
# Visits

What an operation has to do is described by lists: of addresses, of steps. Where such a list is made
up of the lists of nested types it may be long, and the machine works it off while it goes through
the tables. `Descriptor.forElements` does so for the elements of storage (`forElements_eq`), and
`forM_flatMap` and `forM_attach_congr` serve the same end for other lists.
-/

namespace Run

/-- Doing something for items that come in groups is doing it group by group. -/
theorem forM_flatMap {α β : Type} (items : List α) (g : α → List β) (f : β → Run Unit) :
    forM (items.flatMap g) f = forM items fun item => forM (g item) f := by
  induction items with
  | nil => rfl
  | cons item rest ih => rw [List.flatMap_cons, List.forM_append, List.forM_cons, ih]

/-- What is done with the members of a list does not depend on how they are known to be members. -/
theorem forM_attach_congr {α : Type} {items : List α} {f : { item // item ∈ items } → Run Unit}
    {g : α → Run Unit} (same : ∀ item (mem : item ∈ items), f ⟨item, mem⟩ = g item) :
    forM items.attach f = forM items g := by
  obtain rfl : f = fun item => g item.val := funext fun item => same item.val item.property
  rw [← List.forM_map (g := Subtype.val), List.attach_map_subtype_val]

/-- Runs an operation at `count` addresses, `stride` bytes apart. -/
def forAddresses (stride : Nat) (f : Address → Run Unit) :
    (count : Nat) → (first : Address) → Run Unit
  | 0, _ => pure ()
  | count + 1, a => do
    f a
    forAddresses stride f count (a + stride)

/-- Visiting addresses a stride apart is going through the list of them. -/
theorem forAddresses_eq (stride : Nat) (f : Address → Run Unit) (count : Nat) (a : Address) :
    forAddresses stride f count a = ((List.range count).map fun j => a + j * stride).forM f := by
  simp only [List.forM_eq_forM]
  induction count generalizing a with
  | zero => rfl
  | succ count ih =>
    have next (j : Nat) : a + stride + j * stride = a + (j + 1) * stride := by
      rw [Address.add_add, Nat.add_mul, Nat.one_mul, Nat.add_comm]
    simp [forAddresses, ih, List.range_succ_eq_map, next, Function.comp_def]

end Run

/-- Runs an operation at the address of every element of storage that starts at `data`, in element
    order. -/
def Descriptor.forElements (d : Descriptor) (data : Address) (f : Address → Run Unit) : Run Unit :=
  Run.forAddresses d.elementSize.toNat f d.elementCount data

/-- Visiting elements is going through their addresses. -/
theorem Descriptor.forElements_eq (d : Descriptor) (data : Address) (f : Address → Run Unit) :
    d.forElements data f = (d.elementAddresses data).forM f :=
  Run.forAddresses_eq ..

end DerivedTypes
