import DerivedTypes.Fault

namespace DerivedTypes

/-!
# What programs uphold

A program upholds an invariant if it leaves a state in which the invariant holds wherever it finds
one, also if it ends with a fault. What it returns may then have a property that the invariant
gives. Programs that are made of such programs uphold the invariant, too: one after the other
(`Upholds.bind`), or one for each item of a list (`Upholds.forM`).
-/

variable {σ α β : Type} {I : σ → Prop} {Q : α → Prop}

/-- However the program ends, it leaves a state in which the invariant holds. What it returns has
    the property. -/
def Upholds (I : σ → Prop) (Q : α → Prop) (x : EStateM Fault σ α) : Prop :=
  ∀ s, I s →
    match x s with
    | .ok a s' => I s' ∧ Q a
    | .error _ s' => I s'

namespace Upholds

/-- The invariant holds after a program that ends well, and the result has the property. -/
theorem of_ok {x : EStateM Fault σ α} {s s' : σ} {a : α} (h : Upholds I Q x) (good : I s)
    (ended : x s = .ok a s') :
    I s' ∧ Q a := by
  have after := h s good
  rwa [ended] at after

/-- The invariant holds after a program that ends with a fault. -/
theorem of_error {x : EStateM Fault σ α} {s s' : σ} {fault : Fault} (h : Upholds I Q x) (good : I s)
    (ended : x s = .error fault s') : I s' := by
  have after := h s good
  rwa [ended] at after

/-- Returning a value that has the property. -/
theorem pure {a : α} (property : Q a) : Upholds I Q (Pure.pure a) := fun _ good => ⟨good, property⟩

/-- A fault. -/
theorem throw (fault : Fault) : Upholds I Q (MonadExcept.throw fault) := fun _ good => good

/-- Looking at the state, in which the invariant holds. -/
theorem get : Upholds I I MonadState.get := fun _ good => ⟨good, good⟩

/-- One program after the other. The second one is told what the first one returns. -/
theorem bind {P : β → Prop} {x : EStateM Fault σ β} {f : β → EStateM Fault σ α}
    (first : Upholds I P x) (next : ∀ b, P b → Upholds I Q (f b)) : Upholds I Q (x >>= f) := by
  intro s good
  show match EStateM.bind x f s with
    | .ok a s' => I s' ∧ Q a
    | .error _ s' => I s'
  unfold EStateM.bind
  cases ended : x s with
  | ok b s' =>
    obtain ⟨good', property⟩ := first.of_ok good ended
    exact next b property s' good'
  | error fault s' => exact first.of_error good ended

/-- A program for each item of a list. -/
theorem forM {f : β → EStateM Fault σ Unit} {items : List β}
    (each : ∀ item ∈ items, Upholds I (fun _ => True) (f item)) :
    Upholds I (fun _ => True) (items.forM f) := by
  rw [List.forM_eq_forM]
  induction items with
  | nil => exact pure trivial
  | cons item rest ih =>
    rw [List.forM_cons]
    exact (each item List.mem_cons_self).bind fun _ _ => ih fun other mem =>
      each other (List.mem_cons_of_mem _ mem)

end Upholds

end DerivedTypes
