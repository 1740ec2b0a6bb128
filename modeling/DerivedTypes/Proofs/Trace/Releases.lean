import DerivedTypes.Proofs.Ownership.Deallocation
import DerivedTypes.Proofs.Trace.Calls

namespace DerivedTypes

/-!
# Traces of releases

The release of a component is announced by a trace. Then the storage that its descriptor owns is
torn down, which may announce other releases, and at last the block is given back. So announcements
and frees are like opening and closing brackets, and between the two are the events of the teardown
of what is in the block.

* `ReleasesNested`: this is how some events are nested. It is a law of what operations record, as
  long as they end well (`Run.Law.releasesNested`);
* `TeardownStep.exists_of_run_release`: all that a release can have done if it ends well;
* `LifecycleOperation.exists_releasesNested`: whatever procedures make of memory, the events of an
  operation that ends well are nested, but for the block that a deallocation gives back by itself.
-/

/-- The block that was freed. -/
def HeapUse.freedBlock? : HeapUse → Option Nat
  | freed block _ => some block
  | allocated .. => none

namespace Event

/-- The trace that announces the release of a component. -/
def isRelease : Event → Bool
  | trace (.release ..) => true
  | _ => false

/-- The block that is freed at an event. -/
def freedBlock? (event : Event) : Option Nat :=
  event.heapUse?.bind HeapUse.freedBlock?

end Event

/-! ### Nested releases -/

/-- The last events of a release: the block is freed, as one of the size that the descriptor says.
    If there is no block of such a size, the storage is kept, and the log says so. -/
inductive Descriptor.GivesBack (d : Descriptor) (data : Address) : List Event → Prop
  | freed {block size : Nat} (start : data = ⟨.heap block, 0⟩) (sized : d.blockSize? = some size) :
      GivesBack d data [.log (.freeing size d.typeCode), .freed block size]
  | kept (unsized : d.blockSize? = none) : GivesBack d data [.log (.cannotFree d.typeCode)]

/-- A release that is announced after the events `past`: a component holds the descriptor `d`, which
    owns the storage at `data`, and `contents` are the events of tearing down the elements in this
    storage. -/
structure Release (env : Environment) (past : Array Event) (ty : DerivedType) (c : Component)
    (d : Descriptor) (data : Address) (contents : List Event) : Prop where
  member : c ∈ ty.components
  slot : c.isDescriptor = true
  owner : d.isOwner = true
  base : d.base = some data
  tornDown : ∃ (here torn : Machine) (a : Address) (depth : Nat) (finalize : Bool),
    here.events = past.push (.trace (.release ty c)) ∧
    here.memory.descriptor? (a + c.offset.toNat) = some d ∧
    d.forArraySteps env.context (TeardownStep.run env depth) data finalize here = .ok () torn ∧
    torn.events = here.events ++ contents.toArray

/-- Events that come after `past`, among which releases and frees are nested: what a release
    announces is torn down and given back, with all releases inside it, and nothing else is
    freed. -/
inductive ReleasesNested (env : Environment) : Array Event → List Event → Prop
  | nil (past : Array Event) : ReleasesNested env past []
  | other {past : Array Event} {event : Event} {rest : List Event} (quiet : event.isRelease = false)
      (noFree : event.freedBlock? = none) (others : ReleasesNested env (past.push event) rest) :
      ReleasesNested env past (event :: rest)
  | release {past : Array Event} {ty : DerivedType} {c : Component}
      {d : Descriptor} {data : Address}
      {contents last rest : List Event} (released : Release env past ty c d data contents)
      (nested : ReleasesNested env (past.push (.trace (.release ty c))) contents)
      (givesBack : d.GivesBack data last)
      (others : ReleasesNested env (past ++ (.trace (.release ty c) :: (contents ++ last)).toArray)
        rest) :
      ReleasesNested env past (.trace (.release ty c) :: (contents ++ last ++ rest))

/-- Nested releases may follow nested releases. -/
theorem ReleasesNested.append {env : Environment} {past : Array Event} {es es' : List Event}
    (h : ReleasesNested env past es) (h' : ReleasesNested env (past ++ es.toArray) es') :
    ReleasesNested env past (es ++ es') := by
  induction h with
  | nil => simpa using h'
  | other quiet noFree _ ih => exact .other quiet noFree (ih (by simpa using h'))
  | release released nested givesBack _ _ ih =>
    have both :=
      ReleasesNested.release released nested givesBack (ih (by simpa [Array.append_assoc] using h'))
    rw [← List.append_assoc] at both
    exact both

/-- The law that releases are nested, if an operation ends well. -/
def Run.Law.releasesNested (env : Environment) : Run.Law where
  Holds := fun M es well => well = true → ReleasesNested env M.events es
  nil := fun M _ _ => .nil M.events
  append := fun events first second ended => (first rfl).append (events ▸ second ended)

/-- Events that neither announce a release nor free a block are allowed. -/
theorem Run.Law.releasesNested_allows {env : Environment} {event : Event}
    (quiet : event.isRelease = false) (noFree : event.freedBlock? = none) :
    (releasesNested env).Allows event :=
  fun _ _ _ => .other quiet noFree (.nil _)

/-! ### Giving back -/

/-- Only the beginning of a live block is where a block is. -/
theorem Memory.eq_of_blockAt? {m : Memory} {a : Address} {block : Nat}
    (h : m.blockAt? a = some block) :
    a = ⟨.heap block, 0⟩ := by
  unfold blockAt? at h
  split at h
  · split at h
    · cases h
      rfl
    · cases h
  · cases h

/-- Storage is given back with the last events of a release. -/
theorem Run.exists_of_freeStorage {d : Descriptor} {data : Address} {M M' : Machine}
    (ended : Run.freeStorage d data M = .ok () M') :
    ∃ last, d.GivesBack data last ∧ M'.events = M.events ++ last.toArray := by
  unfold Run.freeStorage at ended
  cases sized : d.blockSize? with
  | none =>
    rw [sized] at ended
    cases ended
    exact ⟨_, .kept sized, by simp⟩
  | some size =>
    rw [sized] at ended
    obtain ⟨_, M₁, logged, ended⟩ := Run.exists_of_bind_eq_ok ended
    cases logged
    unfold Run.freeBlock at ended
    rw [Run.get_bind_apply] at ended
    cases there : M.memory.blockAt? data with
    | none =>
      simp only [there] at ended
      cases ended
    | some block =>
      simp only [there] at ended
      cases ended
      exact ⟨_, .freed (Memory.eq_of_blockAt? there) sized, by simp [← Array.toList_inj]⟩

/-! ### What operations release -/

/-- Operations that give default values release nothing. -/
theorem LifecycleOperation.obeys_noRelease (env : Environment) {op : LifecycleOperation}
    (initialization : op.isInitialization = true) :
    (op.run env).Obeys (.each fun event => event.isRelease = false) := by
  have allowed {event : Event} (quiet : event.isRelease = false) :
      (Run.Law.each fun event : Event => event.isRelease = false).Allows event :=
        Run.Law.each_allows quiet
  have defaults (ty : DerivedType) (a : Address) (step : DefaultStep)
      (_ : DefaultStep.Own env.context ty a step) :
      (step.run env).Obeys (.each fun event => event.isRelease = false) :=
    step.obeys_run env (fun _ _ => allowed rfl) fun _ _ => allowed rfl
  cases op with
  | setDefault ty a => exact ty.obeys_setDefault defaults a
  | setDefaults d data => exact d.obeys_setDefaults defaults data
  | allocate d lower upper =>
    exact (d.obeys_allocate defaults (fun _ => allowed rfl) (fun _ _ => allowed rfl)
      (fun _ => allowed rfl)
      lower upper).bind fun _ => .pure ()
  | destroyComponents | destroyScalar | destroyElements | deallocate => cases initialization

section

variable {env : Environment} (traced : env.traces = true)
include traced

namespace TeardownStep

variable {M M' : Machine} {ty : DerivedType} {c : Component} {a : Address} {finalize : Bool}
  {depth : Nat}

/-- A release that ends well passes over a descriptor without storage, or it announces itself, tears
    down what is in the storage, and gives it back. -/
theorem exists_of_run_release {s : Address}
    (ended : (release ty c s finalize).run env depth M = .ok () M') :
    M' = M ∨ ∃ d data below torn last, d.isOwner = true ∧ d.base = some data ∧
      M.memory.descriptor? s = some d ∧
      d.forArraySteps env.context (run env below) data finalize
        (M.record (.trace (.release ty c))) = .ok () torn ∧
      d.GivesBack data last ∧ M'.events = torn.events ++ last.toArray ∧ depth = below + 1 := by
  rw [TeardownStep.run] at ended
  obtain ⟨owner, M₁, read, rest⟩ := Run.exists_of_bind_eq_ok ended
  obtain ⟨rfl, found⟩ := Run.eq_of_readOwner read
  cases owner with
  | none =>
    cases rest
    exact .inl rfl
  | some owner =>
    obtain ⟨d, data⟩ := owner
    obtain ⟨there, owns, base⟩ := found d data rfl
    rw [Memory.ownsStorage_of_descriptor? there] at owns
    obtain ⟨_, M₂, announced, rest⟩ := Run.exists_of_bind_eq_ok rest
    rw [Run.trace_apply, Environment.traceEvents,
      if_pos traced, ← Machine.record_eq_recordAll] at announced
    cases announced
    cases depth with
    | zero => cases rest
    | succ below =>
      obtain ⟨_, torn, tornDown, rest⟩ := Run.exists_of_bind_eq_ok rest
      obtain ⟨_, M₃, gave, cleared⟩ := Run.exists_of_bind_eq_ok rest
      obtain ⟨last, givesBack, events⟩ := Run.exists_of_freeStorage gave
      refine .inr ⟨d, data, below, torn, last, owns, base, there, tornDown, givesBack, ?_, rfl⟩
      rw [Run.eq_of_store cleared]
      exact events

/-- The steps of a teardown nest what they release, at any depth. -/
theorem obeys_releasesNested {step : TeardownStep} (arises : step.Arises env.context finalize)
    (depth : Nat) :
    (step.run env depth).Obeys (.releasesNested env) := by
  have allowed {event : Event} (quiet : event.isRelease = false)
      (noFree : event.freedBlock? = none) :
      (Run.Law.releasesNested env).Allows event := Run.Law.releasesNested_allows quiet noFree
  -- Only a release frees anything, and what it leads to has less depth left.
  induction depth using Nat.strong_induction_on generalizing step finalize with
  | _ depth ih =>
    intro M
    cases arises with
    | finalizeScalar _ _ _ _ a =>
      rw [TeardownStep.run]
      exact (Run.Obeys.trace env (allowed rfl rfl)).bind (fun _ =>
        .call env _ _ (allowed rfl rfl)) M
    | finalizeArray _ _ _ _ view =>
      rw [TeardownStep.run]
      exact (Run.Obeys.trace env (allowed rfl rfl)).bind (fun _ =>
        .call env _ _ (allowed rfl rfl)) M
    | enterComponents | enterParent =>
      rw [TeardownStep.run]
      exact Run.Obeys.trace env (allowed rfl rfl) M
    | orphan =>
      rw [TeardownStep.run]
      exact Run.Obeys.fatal (allowed rfl rfl) M
    | @release ty c mem slot a below le =>
      cases ended : (release ty c (a + c.offset.toNat) below).run env depth M with
      | error fault M' =>
        -- Only that there are events matters here.
        obtain ⟨es, events, _⟩ := obeys_callsAnnounced traced (.release mem slot a le) depth M
        refine ⟨es, events, fun well => ?_⟩
        rw [Run.endsWell_of_error ended] at well
        cases well
      | ok _ M' =>
        rcases exists_of_run_release traced ended with
          rfl | ⟨d, data, depth, torn, last, owner, base, there, tornDown, givesBack, events, rfl⟩
        · exact .of_unchanged (by rw [Run.leaves_of_ok ended])
        · have steps : ((d.arraySteps env.context data below).forM (run env depth)).Obeys
            (.releasesNested env) :=
            .forM fun step mem =>
              ih depth (Nat.lt_succ_self depth) (d.arises_arraySteps env.context data _ step mem)
          rw [← d.forArraySteps_eq] at steps
          obtain ⟨contents, inside, nested⟩ := steps (M.record (.trace (.release ty c)))
          rw [Run.leaves_of_ok tornDown] at inside
          have released : Release env M.events ty c d data contents :=
            ⟨mem, slot, owner, base, M.record (.trace (.release ty c)), torn, a, depth, below,
              rfl, there, tornDown,
              inside⟩
          refine .of_ok ended ?_ fun _ =>
            .release released (nested (Run.endsWell_of_ok tornDown)) givesBack (.nil _)
          rw [events, inside]
          simp [Machine.record]

end TeardownStep

namespace LifecycleOperation

/-- The last events of an operation. Only a deallocation gives back storage that no release has
    announced. -/
inductive EndsWith : LifecycleOperation → List Event → Prop
  | deallocate {d : Descriptor} {data : Address} {last : List Event} (finalize : Bool)
      (owner : d.isOwner = true) (base : d.base = some data) (givesBack : d.GivesBack data last) :
      EndsWith (.deallocate d finalize) last
  | other {op : LifecycleOperation} (noOwner : ∀ d finalize, op = .deallocate d finalize →
      d.isOwner = false) :
      EndsWith op []

/-- In an operation that ends well, all releases are nested, and nothing else is freed but what a
    deallocation gives back at last. -/
theorem exists_releasesNested {op : LifecycleOperation} {M M' : Machine}
    (ended : op.run env M = .ok () M') :
    ∃ es last, M'.events = M.events ++ (es ++ last).toArray ∧ ReleasesNested env M.events es ∧
    op.EndsWith last := by
  have allowed {event : Event} (quiet : event.isRelease = false)
      (noFree : event.freedBlock? = none) :
      (Run.Law.releasesNested env).Allows event := Run.Law.releasesNested_allows quiet noFree
  have teardown {finalize : Bool} (step : TeardownStep) (arises : step.Arises env.context finalize)
      (depth : Nat) :
      (step.run env depth).Obeys (.releasesNested env) :=
        TeardownStep.obeys_releasesNested traced arises depth
  have defaults (ty : DerivedType) (a : Address) (step : DefaultStep)
      (_ : DefaultStep.Own env.context ty a step) :
      (step.run env).Obeys (.releasesNested env) :=
    step.obeys_run env (fun _ _ => allowed rfl rfl) fun _ _ => allowed rfl rfl
  -- All operations but a deallocation keep to the law by themselves.
  have of_obeys (obeys : (op.run env).Obeys (.releasesNested env)) (other : ∀ d finalize,
    op ≠ .deallocate d finalize) :
      ∃ es last, M'.events = M.events ++ (es ++ last).toArray ∧ ReleasesNested env M.events es ∧
      op.EndsWith last := by
    obtain ⟨es, events, nested⟩ := obeys M
    rw [Run.leaves_of_ok ended] at events
    exact ⟨es, [], by rw [events, List.append_nil], nested (Run.endsWell_of_ok ended),
      .other fun d finalize same => absurd same (other d finalize)⟩
  cases op with
  | setDefault ty a => exact of_obeys (ty.obeys_setDefault defaults a) nofun
  | setDefaults d data => exact of_obeys (d.obeys_setDefaults defaults data) nofun
  | destroyComponents ty a finalize => exact of_obeys (ty.obeys_destroyComponents teardown a) nofun
  | destroyScalar ty a finalize => exact of_obeys (ty.obeys_destroyScalar teardown a) nofun
  | destroyElements d data finalize => exact of_obeys (d.obeys_destroyElements teardown data) nofun
  | allocate d lower upper =>
    exact of_obeys
      ((d.obeys_allocate defaults (fun _ => allowed rfl rfl) (fun _ _ => allowed rfl rfl)
      (fun _ => allowed rfl rfl) lower upper).bind fun _ => .pure ()) nofun
  | deallocate d finalize =>
    obtain ⟨result, M₁, ran, rest⟩ := Run.exists_of_bind_eq_ok ended
    cases rest
    cases owner : d.isOwner with
    | false =>
      rw [Descriptor.deallocate_of_not_owner owner] at ran
      cases ran
      exact ⟨[], [], by simp, .nil _, .other fun _ _ same => by cases same; exact owner⟩
    | true =>
      obtain ⟨allocatable, allocated⟩ := Bool.and_eq_true_iff.mp owner
      obtain ⟨data, base⟩ := Option.isSome_iff_exists.mp allocated
      -- The elements are torn down first, and the block that they are in is given back without a
      -- trace.
      unfold Descriptor.deallocate at ran
      rw [allocatable, base] at ran
      obtain ⟨_, torn, tornDown, ran'⟩ := Run.exists_of_bind_eq_ok ran
      obtain ⟨_, M₂, gave, done⟩ := Run.exists_of_bind_eq_ok ran'
      cases done
      obtain ⟨last, givesBack, events⟩ := Run.exists_of_freeStorage gave
      have contents : (d.destroyElements env (some data) finalize).Obeys (.releasesNested env) :=
        d.obeys_destroyElements teardown (some data)
      obtain ⟨es, inside, nested⟩ := contents M
      rw [Run.leaves_of_ok tornDown] at inside
      refine ⟨es, last, ?_, nested (Run.endsWell_of_ok tornDown),
        .deallocate finalize owner base givesBack⟩
      rw [events, inside]
      simp [Array.append_assoc]

end LifecycleOperation

end

end DerivedTypes
