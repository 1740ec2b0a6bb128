import DerivedTypes.Machine.Teardown
import DerivedTypes.Proofs.Machine.Outcome

namespace DerivedTypes

/-!
# How deep a teardown may reach

An operation that releases storage counts down how often releases may lead to each other. The count
matters only to an operation that gives up on it: with another count the operation does the same, or
one of the two gives up.

* `Run.Alike`: two operations end with the same result and the same machine, wherever neither gives
  up on an endless chain of owners;
* `TeardownStep.run_alike`: so do the runs of a step with two counts;
* `DerivedType.forComponentSteps_alike`, `DerivedType.forScalarSteps_alike`: components and
  instances are torn down alike with the count of another operation.
-/

namespace Run

variable {α β : Type}

/-- The operation gives up on an endless chain of owners. -/
def GivesUp (x : Run α) (M : Machine) : Prop :=
  ∃ M', x M = .error (.undefined .endlessOwnership) M'

/-- Two operations do the same on every machine where neither of them gives up. -/
def Alike (x y : Run α) : Prop :=
  ∀ M, x M = y M ∨ x.GivesUp M ∨ y.GivesUp M

/-- Where the first operation gives up, the sequence does. -/
theorem GivesUp.bind {x : Run α} {M : Machine} (h : GivesUp x M) (f : α → Run β) :
    GivesUp (x >>= f) M := by
  obtain ⟨M', gaveUp⟩ := h
  refine ⟨M', ?_⟩
  show EStateM.bind x f M = _
  rw [EStateM.bind, gaveUp]

/-- What follows is given up as well. -/
theorem GivesUp.bind_of_ok {x : Run α} {f : α → Run β} {M M' : Machine} {a : α}
    (ran : x M = .ok a M') (h : GivesUp (f a) M') : GivesUp (x >>= f) M := by
  obtain ⟨M'', gaveUp⟩ := h
  exact ⟨M'', (Run.bind_of_ok ran).trans gaveUp⟩

namespace Alike

/-- An operation is like itself. -/
theorem refl (x : Run α) : Alike x x := fun _ => .inl rfl

/-- An operation that always gives up is like every other. -/
theorem of_undefined (y : Run α) :
    Alike (Run.undefined .endlessOwnership) y := fun M => .inr (.inl ⟨M, rfl⟩)

/-- Likeness has no direction. -/
theorem symm {x y : Run α} (h : Alike x y) : Alike y x := fun M =>
  (h M).imp Eq.symm Or.symm

/-- Operations one after the other are alike if each of them is. -/
theorem bind {x y : Run α} {f g : α → Run β} (h : Alike x y) (h' : ∀ a, Alike (f a) (g a)) :
    Alike (x >>= f) (y >>= g) := by
  intro M
  rcases h M with same | gaveUp | gaveUp
  · cases ran : x M with
    | ok a M' =>
      have ran' := same.symm.trans ran
      rw [Run.bind_of_ok ran, Run.bind_of_ok ran']
      exact (h' a M').imp_right (.imp (.bind_of_ok ran) (.bind_of_ok ran'))
    | error fault M' =>
      left
      show EStateM.bind x f M = EStateM.bind y g M
      rw [EStateM.bind, EStateM.bind, ← same, ran]
  · exact .inr (.inl (gaveUp.bind f))
  · exact .inr (.inr (gaveUp.bind g))

/-- So are operations for each item. -/
theorem forM {f g : α → Run Unit} (h : ∀ x, Alike (f x) (g x)) (items : List α) :
    Alike (items.forM f) (items.forM g) := by
  induction items with
  | nil => exact .refl _
  | cons x rest ih =>
    simp only [List.forM_eq_forM, List.forM_cons] at ih ⊢
    exact (h x).bind fun _ => ih

end Alike

end Run

/-- A step does the same whatever the count, unless it gives up. -/
theorem TeardownStep.run_alike (env : Environment) (depth depth' : Nat) (step : TeardownStep) :
    Run.Alike (step.run env depth) (step.run env depth') := by
  induction depth generalizing depth' step with
  | zero =>
    cases step with
    | release ty c a finalize =>
      simp only [TeardownStep.run]
      refine .bind (.refl _) fun owner => ?_
      cases owner with
      | none => exact .refl _
      | some x =>
        refine .bind (.refl _) fun _ => ?_
        cases depth' <;> exact .bind (.of_undefined _) fun _ => .refl _
    | _ =>
      simp only [TeardownStep.run]
      exact .refl _
  | succ depth ih =>
    cases step with
    | release ty c a finalize =>
      simp only [TeardownStep.run]
      refine .bind (.refl _) fun owner => ?_
      cases owner with
      | none => exact .refl _
      | some x =>
        refine .bind (.refl _) fun _ => ?_
        cases depth' with
        | zero => exact .bind (Run.Alike.of_undefined _).symm fun _ => .refl _
        | succ depth' =>
          refine .bind ?_ fun _ => .refl _
          rw [Descriptor.forArraySteps_eq, Descriptor.forArraySteps_eq]
          exact .forM (ih depth') _
    | _ =>
      simp only [TeardownStep.run]
      exact .refl _

/-- The components of an instance are torn down with any count as they are by an operation of their
    own. -/
theorem DerivedType.forComponentSteps_alike (env : Environment) (depth : Nat) (ty : DerivedType)
    (a : Address) (finalize : Bool) :
    Run.Alike (ty.forComponentSteps env.context (TeardownStep.run env depth) a finalize)
      (ty.destroyComponents env a finalize) := by
  intro M
  have alike := Run.Alike.forM (TeardownStep.run_alike env depth M.memory.byteCount)
    (ty.componentSteps env.context a finalize) M
  rwa [← forComponentSteps_eq, ← forComponentSteps_eq] at alike

/-- An instance is torn down with any count as it is by an operation of its own. -/
theorem DerivedType.forScalarSteps_alike (env : Environment) (depth : Nat) (ty : DerivedType)
    (a : Address) (finalize : Bool) :
    Run.Alike (ty.forScalarSteps env.context (TeardownStep.run env depth) a finalize)
      (ty.destroyScalar env a finalize) := by
  intro M
  have alike := Run.Alike.forM (TeardownStep.run_alike env depth M.memory.byteCount)
    (ty.scalarSteps env.context a finalize) M
  rwa [← forScalarSteps_eq, ← forScalarSteps_eq] at alike

end DerivedTypes
