namespace DerivedTypes

/-!
# Splicing

`splice old new i` is the list `old` with `new` in the place of what stood from position `i` on.
Buffers store bytes by it. When the new part fits, the length stays and only its positions change
(`length_splice`, `getElem?_splice`).

`overwrite` does the same to an array, one item after the other (`getElem?_overwrite`). Memory
stores by it: the cost is that of the new part, however long the array is.
-/

variable {α : Type}

/-- A list with another one in the place of its elements from position `i` on. -/
def splice : (old new : List α) → (i : Nat) → List α
  | old, new, 0 => new ++ old.drop new.length
  | [], _, _ + 1 => []
  | x :: old, new, i + 1 => x :: splice old new i

/-- A splice is what comes before, the new items and what comes after. -/
theorem splice_eq_append {old : List α} {i : Nat} (new : List α) (le : i ≤ old.length) :
    splice old new i = old.take i ++ new ++ old.drop (i + new.length) := by
  induction old generalizing i with
  | nil =>
    obtain rfl : i = 0 := by simpa using le
    simp [splice]
  | cons x old ih =>
    cases i with
    | zero => simp [splice]
    | succ i =>
      have le' : i ≤ old.length := by simpa using le
      simp [splice, ih le', Nat.add_right_comm i 1]

/-- A splice that fits is as long as the list was. -/
theorem length_splice {old new : List α} {i : Nat} (fits : i + new.length ≤ old.length) :
    (splice old new i).length = old.length := by
  rw [splice_eq_append new (by omega)]
  simp only [List.length_append, List.length_take, List.length_drop]
  omega

/-- The elements after a splice that fits. -/
theorem getElem?_splice {old new : List α} {i : Nat}
    (fits : i + new.length ≤ old.length) (j : Nat) :
    (splice old new i)[j]? = if i ≤ j ∧ j < i + new.length then new[j - i]? else old[j]? := by
  have start : (old.take i).length = i := by
    rw [List.length_take]
    omega
  rw [splice_eq_append new (by omega)]
  rw [List.append_assoc, List.getElem?_append, start]
  split
  · next before =>
    rw [if_neg (by omega), List.getElem?_take_of_lt before]
  · next notBefore =>
    rw [List.getElem?_append]
    split
    · next inside => rw [if_pos (by omega)]
    · next after =>
      rw [if_neg (by omega), List.getElem?_drop]
      congr 1
      omega

/-! ### Arrays -/

/-- An array with new items in the place of those from position `i` on. Items past the end are left
    out. -/
def overwrite : (items : Array α) → (new : List α) → (i : Nat) → Array α
  | items, [], _ => items
  | items, x :: new, i => overwrite (items.setIfInBounds i x) new (i + 1)

/-- Overwriting items keeps their number. -/
@[simp] theorem size_overwrite (items : Array α) (new : List α) (i : Nat) :
    (overwrite items new i).size = items.size := by
  induction new generalizing items i with
  | nil => rfl
  | cons x new ih => simp [overwrite, ih]

/-- The items after new ones that fit. -/
theorem getElem?_overwrite {items : Array α} {new : List α} {i : Nat}
    (fits : i + new.length ≤ items.size) (j : Nat) :
    (overwrite items new i)[j]? = if i ≤ j ∧
    j < i + new.length then new[j - i]? else items[j]? := by
  induction new generalizing items i with
  | nil => grind [overwrite]
  | cons x new ih =>
    rw [List.length_cons] at fits ⊢
    rw [overwrite, ih (by rw [Array.size_setIfInBounds]; omega), Array.getElem?_setIfInBounds]
    by_cases first : j = i
    · subst first
      grind
    · grind

end DerivedTypes
