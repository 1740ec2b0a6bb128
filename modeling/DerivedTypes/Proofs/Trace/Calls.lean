import DerivedTypes.Proofs.Trace.Operations
import Mathlib.Data.List.Forall2

namespace DerivedTypes

/-!
# Traces of calls

Where steps are recorded, a call of a procedure is announced by the trace that comes right before
it, and nothing else announces a call. `CallsAnnounced` says so of a list of events, by its
structure. It is a law of what operations record (`Run.Law.callsAnnounced`), and each step that
calls something keeps to it by itself.

* `CallsAnnounced.tellsCalls`: announcements and calls belong together one by one, in the same
  order, and side by side;
* `LifecycleOperation.obeys_callsAnnounced`: this holds of all operations, however they end.
-/

namespace Event

/-- The trace of a rule or finalizer that is a procedure. -/
def isAnnouncement : Event → Bool
  | trace (.init _ .procedure) | trace (.finalize ..) => true
  | _ => false

/-- The event is a call. -/
def isCall : Event → Bool
  | call .. => true
  | _ => false

/-- A trace announces a call: it names the type that the procedure belongs to, as its initializer or
    as one of its finalizers. -/
inductive Announces (context : ExecutionContext) : Event → Event → Prop
  | initializer {ty : DerivedType} {p : Procedure} {entry : EntryPoint}
      (own : ty.initializerEntry? context = some (p, entry)) (a : Address) :
      Announces context (.trace (.init ty .procedure)) (.call p context (.scalar a))
  | finalizer {ty : DerivedType} {p : Procedure} {entry : EntryPoint} (own : p ∈ ty.procedures)
      (role : p.isFinalizer)
      (code : p.code.entry? context = some entry) (argument : Argument) :
      Announces context (.trace (.finalize ty p)) (.call p context argument)

variable {context : ExecutionContext} {announcement call : Event}

/-- What announces a call is an announcement. -/
theorem Announces.isAnnouncement (h : Announces context announcement call) :
    announcement.isAnnouncement = true := by
  cases h <;> rfl

/-- What is announced is a call. -/
theorem Announces.isCall (h : Announces context announcement call) : call.isCall = true := by
  cases h <;> rfl

/-- What announces a call is none. -/
theorem Announces.not_isCall (h : Announces context announcement call) :
    announcement.isCall = false := by
  cases h <;> rfl

/-- What is announced announces nothing. -/
theorem Announces.not_isAnnouncement (h : Announces context announcement call) :
    call.isAnnouncement = false := by
  cases h <;> rfl

end Event

open Event

/-- Events among which each call follows its announcement, and each announcement is followed by its
    call. -/
inductive CallsAnnounced (context : ExecutionContext) : List Event → Prop
  | nil : CallsAnnounced context []
  | other {event : Event} {rest : List Event} (quiet : event.isAnnouncement = false)
      (noCall : event.isCall = false)
      (others : CallsAnnounced context rest) : CallsAnnounced context (event :: rest)
  | call {announcement call : Event} {rest : List Event}
      (announces : Announces context announcement call)
      (others : CallsAnnounced context rest) : CallsAnnounced context (announcement :: call :: rest)

/-- Announcements and calls belong together one by one and in the same order, and each announcement
    comes directly before its call. -/
structure TellsCalls (context : ExecutionContext) (events : List Event) : Prop where
  inOrder : List.Forall₂ (Announces context) (events.filter (·.isAnnouncement))
    (events.filter (·.isCall))
  followed : ∀ before announcement after, events = before ++ announcement :: after →
    announcement.isAnnouncement = true → ∃ call rest, after = call :: rest ∧
    Announces context announcement call
  preceded : ∀ before call after, events = before ++ call :: after →
    call.isCall = true →
      ∃ earlier announcement, before = earlier ++ [announcement] ∧
      Announces context announcement call

namespace CallsAnnounced

variable {context : ExecutionContext} {es es' : List Event}

/-- Events one after the other. -/
theorem append (h : CallsAnnounced context es) (h' : CallsAnnounced context es') :
    CallsAnnounced context (es ++ es') := by
  induction h with
  | nil => exact h'
  | other quiet noCall _ ih => exact .other quiet noCall ih
  | call announces _ ih => exact .call announces ih

/-- Announcements and calls belong together in order. -/
theorem inOrder (h : CallsAnnounced context es) :
    List.Forall₂ (Announces context) (es.filter (·.isAnnouncement)) (es.filter (·.isCall)) := by
  induction h with
  | nil => exact .nil
  | other quiet noCall _ ih => simpa [quiet, noCall] using ih
  | call announces _ ih =>
    simpa [announces.isAnnouncement, announces.isCall, announces.not_isCall,
      announces.not_isAnnouncement]
      using ⟨announces, ih⟩

/-- An announcement is followed by its call. -/
theorem followed (h : CallsAnnounced context es) {before after : List Event} {announcement : Event}
    (split : es = before ++ announcement :: after)
    (announced : announcement.isAnnouncement = true) :
    ∃ call rest, after = call :: rest ∧ Announces context announcement call := by
  induction h generalizing before with
  | nil => simp at split
  | other quiet _ _ ih =>
    cases before with
    | nil =>
      obtain ⟨rfl, rfl⟩ := List.cons.inj split
      rw [quiet] at announced
      cases announced
    | cons first before => exact ih (List.cons.inj split).2
  | call announces _ ih =>
    -- The announcement is the first event, or the call that follows, which is none, or comes later.
    cases before with
    | nil =>
      obtain ⟨rfl, rfl⟩ := List.cons.inj split
      exact ⟨_, _, rfl, announces⟩
    | cons first before =>
      have split := (List.cons.inj split).2
      cases before with
      | nil =>
        obtain ⟨rfl, rfl⟩ := List.cons.inj split
        rw [announces.not_isAnnouncement] at announced
        cases announced
      | cons second before => exact ih (List.cons.inj split).2

/-- A call is preceded by its announcement. -/
theorem preceded (h : CallsAnnounced context es) {before after : List Event} {call : Event}
    (split : es = before ++ call :: after) (called : call.isCall = true) :
    ∃ earlier announcement, before = earlier ++ [announcement] ∧
    Announces context announcement call := by
  induction h generalizing before with
  | nil => simp at split
  | other _ noCall _ ih =>
    cases before with
    | nil =>
      obtain ⟨rfl, rfl⟩ := List.cons.inj split
      rw [noCall] at called
      cases called
    | cons first before =>
      obtain ⟨earlier, announcement, rfl, announces⟩ := ih (List.cons.inj split).2
      exact ⟨first :: earlier, announcement, rfl, announces⟩
  | call announces _ ih =>
    -- The announcement is no call, so the call is the one that follows it, or one that comes later.
    cases before with
    | nil =>
      obtain ⟨rfl, rfl⟩ := List.cons.inj split
      rw [announces.not_isCall] at called
      cases called
    | cons first before =>
      obtain ⟨same, split⟩ := List.cons.inj split
      cases before with
      | nil =>
        obtain ⟨rfl, rfl⟩ := List.cons.inj split
        exact ⟨[], first, rfl, same ▸ announces⟩
      | cons second before =>
        obtain ⟨earlier, announcement, rfl, announces⟩ := ih (List.cons.inj split).2
        exact ⟨first :: second :: earlier, announcement, rfl, announces⟩

/-- Taken together, announcements tell the calls. -/
theorem tellsCalls (h : CallsAnnounced context es) : TellsCalls context es where
  inOrder := h.inOrder
  followed := fun _ _ _ split announced => h.followed split announced
  preceded := fun _ _ _ split called => h.preceded split called

end CallsAnnounced

/-! ### What operations announce -/

/-- The law that calls are announced. -/
def Run.Law.callsAnnounced (context : ExecutionContext) : Run.Law where
  Holds := fun _ es _ => CallsAnnounced context es
  nil := fun _ _ => .nil
  append := fun _ first second => first.append second

/-- Events that have nothing to do with calls are allowed. -/
theorem Run.Law.callsAnnounced_allows {context : ExecutionContext} {event : Event}
    (quiet : event.isAnnouncement = false) (noCall : event.isCall = false) :
    (callsAnnounced context).Allows event :=
  fun _ _ => .other quiet noCall .nil

section

variable {env : Environment} (traced : env.traces = true)
include traced

/-- A trace that announces a call is followed by this call. -/
theorem Run.obeys_announcedCall {step : Trace} {p : Procedure} {argument : Argument}
    (entry : EntryPoint)
    (announces : Announces env.context (.trace step) (.call p env.context argument)) :
    (do
      Run.trace env step
      let _ ← Run.call env p entry argument : Run Unit).Obeys (.callsAnnounced env.context) := by
  intro M
  have announced : Run.trace env step M = .ok () (M.recordAll [.trace step]) := by
    rw [Run.trace_apply, Environment.traceEvents, if_pos traced]
  have called := (Run.bind_of_ok (f := fun _ => do
    let _ ← Run.call env p entry argument) announced).trans (Run.bind_of_ok (Run.call_apply ..))
  refine .of_ok called ?_ (.call announces .nil)
  show ((M.recordAll [.trace step]).record (.call p env.context argument)).events = _
  rw [Machine.record_eq_recordAll, ← Machine.recordAll_append]
  rfl

/-- The steps towards a default value announce their calls. -/
theorem DefaultStep.obeys_callsAnnounced {ty : DerivedType} {a : Address} {step : DefaultStep}
    (own : step.Own env.context ty a) : (step.run env).Obeys (.callsAnnounced env.context) := by
  cases own with
  | copyImage image =>
    exact (Run.Obeys.trace env (Run.Law.callsAnnounced_allows rfl rfl)).bind fun _ => .store _ _ _
  | callInitializer there => exact Run.obeys_announcedCall traced _ (.initializer there a)
  | zeroFill =>
    exact (Run.Obeys.trace env (Run.Law.callsAnnounced_allows rfl rfl)).bind fun _ => .store _ _ _
  | enterComponents => exact .trace env (Run.Law.callsAnnounced_allows rfl rfl)

/-- The steps of a teardown announce their calls, at any depth. -/
theorem TeardownStep.obeys_callsAnnounced {finalize : Bool} {step : TeardownStep}
    (arises : step.Arises env.context finalize) (depth : Nat) :
    (step.run env depth).Obeys (.callsAnnounced env.context) := by
  -- A step inside a release has less depth left than the release.
  induction depth using Nat.strong_induction_on generalizing step finalize with
  | _ depth ih =>
    cases arises with
    | finalizeScalar _ mem role code a =>
      rw [TeardownStep.run]
      exact Run.obeys_announcedCall traced _ (.finalizer mem role code _)
    | finalizeArray _ mem role code view =>
      rw [TeardownStep.run]
      exact Run.obeys_announcedCall traced _ (.finalizer mem role code _)
    | enterComponents | enterParent =>
      rw [TeardownStep.run]
      exact .trace env (Run.Law.callsAnnounced_allows rfl rfl)
    | orphan =>
      rw [TeardownStep.run]
      exact .fatal (Run.Law.callsAnnounced_allows rfl rfl)
    | release =>
      have quiet {event : Event} (noAnnouncement : event.isAnnouncement = false)
          (noCall : event.isCall = false) :
          (Run.Law.callsAnnounced env.context).Allows event :=
            Run.Law.callsAnnounced_allows noAnnouncement noCall
      exact fun M => obeysAt_run_release (quiet rfl rfl) (fun _ => quiet rfl rfl)
        (fun _ _ => quiet rfl rfl)
        fun d data below _ lt => .forM fun step mem =>
          ih below lt (d.arises_arraySteps env.context data _ step mem)

/-- Operations announce their calls, however they end. -/
theorem LifecycleOperation.obeys_callsAnnounced (op : LifecycleOperation) :
    (op.run env).Obeys (.callsAnnounced env.context) := by
  have quiet {event : Event} (noAnnouncement : event.isAnnouncement = false)
      (noCall : event.isCall = false) :
      (Run.Law.callsAnnounced env.context).Allows event :=
        Run.Law.callsAnnounced_allows noAnnouncement noCall
  exact op.obeys_run (fun _ _ _ own => DefaultStep.obeys_callsAnnounced traced own)
    (fun _ arises depth => TeardownStep.obeys_callsAnnounced traced arises depth)
      (fun _ => quiet rfl rfl)
    (fun _ _ => quiet rfl rfl) (fun _ => quiet rfl rfl) fun _ _ => quiet rfl rfl

end

end DerivedTypes
