import DerivedTypes.Machine.Allocation
import DerivedTypes.Proofs.DefaultValue.PlainRecursion
import DerivedTypes.Proofs.Descriptor.Bounds
import DerivedTypes.Proofs.Machine.Upholds
import DerivedTypes.Proofs.Memory.Fields
import DerivedTypes.Proofs.Teardown.Origins
import DerivedTypes.Recording

namespace DerivedTypes

/-!
# What traces show

A trace shows types, and procedures and components of these types. Operations find types in three
places: with their arguments, in the tables that memory points to, and inside of other types. So if
all tables are among the types with some property that types hand on to those inside of them, then
all that is traced is among them, too, however an operation ends.

* `Trace.Among`, `Machine.Among`: all that is shown is among the types with a property;
* `TeardownStep.staysAmong_run`: steps uphold the provenance of traces, by induction on how often a
  release may lead to another one;
* `Descriptor.upholds_allocate`, `Descriptor.upholds_deallocate` and others: so do the operations.
-/

/-! ### Provenance -/

/-- What a step shows are types with a property, and procedures and components of these. -/
def Trace.Among (P : DerivedType → Prop) : Trace → Prop
  | init ty _ | destroyComponents ty => P ty
  | finalize ty p => P ty ∧ p ∈ ty.procedures
  | release ty c => P ty ∧ c ∈ ty.components
  | enterParent ty parent => P ty ∧ P parent

/-- The type that a descriptor names is one with a property. -/
def Descriptor.Among (P : DerivedType → Prop) (d : Descriptor) : Prop :=
  ∀ ty, d.addendumType = some ty → P ty

/-- The tables have a property, and so have all types that were traced. -/
structure Machine.Among (P : DerivedType → Prop) (M : Machine) : Prop where
  tables : ∀ ty ∈ M.memory.tables, P ty
  traces : ∀ step, .trace step ∈ M.events → step.Among P

/-- If the tables have a property, then also those do that the code of procedures leaves. -/
def Environment.KeepsAmong (P : DerivedType → Prop) (env : Environment) : Prop :=
  ∀ entry argument m, (∀ ty ∈ m.tables, P ty) → ∀ ty ∈ (env.code entry argument m).2.tables, P ty

variable {P : DerivedType → Prop} {env : Environment}

namespace Recording

/-- A store of a recording makes no tables. -/
@[simp] theorem tables_writeIfFits (m : Memory) (a : Address) (bytes : List UInt8) :
    (writeIfFits m a bytes).tables = m.tables := by
  unfold writeIfFits
  split <;> simp

/-- Nor does an addition. -/
@[simp] theorem tables_addIfFits (m : Memory) (a : Address) (n : Nat) :
    (addIfFits m a n).tables = m.tables := by
  unfold addIfFits
  split <;> simp

/-- Recorded procedures make no tables. -/
theorem tables_run (r : Recording) (argument : Argument) (m : Memory) :
    (r.run argument m).2.tables = m.tables := by
  have stores (store : Memory → Nat × List UInt8 → Memory)
      (keeps : ∀ m write, (store m write).tables = m.tables)
      (writes : List (Nat × List UInt8)) : (writes.foldl store m).tables = m.tables := by
    induction writes generalizing m with
    | nil => rfl
    | cons first rest ih => rw [List.foldl_cons, ih, keeps]
  unfold run
  cases origin argument with
  | none => rfl
  | some a =>
    cases r.increment <;> simp only [tables_addIfFits] <;>
      exact stores _ (fun _ _ => tables_writeIfFits ..) _

end Recording

/-- Recorded code keeps the tables as they are. -/
theorem Environment.keepsAmong_ofRecordings (context : ExecutionContext) (traces : Bool)
    (recordings : Array Recording) (heapLimit : Nat) :
    (ofRecordings context traces recordings heapLimit).KeepsAmong P := by
  intro entry argument m among
  show ∀ ty ∈ ((recordings[entry.index]?.getD .idle).run argument m).2.tables, P ty
  rwa [Recording.tables_run]

/-- The type of the elements is the one in the addendum. -/
theorem Descriptor.Among.of_derivedType? {d : Descriptor} (among : d.Among P) {ty : DerivedType}
    (named : d.derivedType? = some ty) : P ty := by
  rw [derivedType?] at named
  split at named
  · exact among ty named
  · cases named

namespace Machine.Among

variable {M : Machine}

/-- A type that a stored descriptor names is one of the tables. -/
theorem descriptor? (among : M.Among P) {a : Address} {d : Descriptor}
    (there : M.memory.descriptor? a = some d) :
    d.Among P := by
  intro ty named
  -- The word of the type is the number of a table, since it is not zero.
  obtain ⟨word, _, typed⟩ :=
    Option.bind_eq_some_iff.mp (Memory.descriptor?_eq_some_iff.mp there).type
  rw [named, Memory.type?] at typed
  split at typed
  · cases typed
  · obtain ⟨_, found, same⟩ := Option.map_eq_some_iff.mp typed
    obtain rfl := Option.some.inj same
    obtain ⟨_, _, listed⟩ := Option.bind_eq_some_iff.mp found
    exact among.tables _ (Array.mem_of_getElem? listed)

/-- A new memory needs tables with the property. -/
theorem withMemory (among : M.Among P) {m : Memory} (tables : ∀ ty ∈ m.tables, P ty) :
    (M.withMemory m).Among P where
  tables := tables
  traces := among.traces

/-- A new event needs the property if it is a trace. -/
theorem record (among : M.Among P) {event : Event}
    (shown : ∀ step, event = .trace step → step.Among P) :
    (M.record event).Among P where
  tables := among.tables
  traces := fun step mem =>
    (Array.mem_push.mp mem).elim (among.traces step) fun same => shown step same.symm

end Machine.Among

/-! ### Single operations -/

/-- An operation upholds the provenance of what is traced. -/
abbrev Run.StaysAmong {α : Type} (P : DerivedType → Prop) (x : Run α) : Prop :=
  Upholds (Machine.Among P) (fun _ => True) x

namespace Run

variable {α : Type}

/-- A log entry shows no types. -/
theorem staysAmong_log (entry : LogRecord) : (log entry).StaysAmong P :=
  fun _ among => ⟨among.record (by simp), trivial⟩

/-- A trace shows the types in it. -/
theorem staysAmong_trace (step : Trace) (shown : step.Among P) : (trace env step).StaysAmong P := by
  unfold trace
  split
  · refine fun _ among => ⟨among.record ?_, trivial⟩
    rintro _ ⟨⟩
    exact shown
  · exact .pure trivial

/-- A fatal error shows no types. -/
theorem staysAmong_fatal (error : FatalError) : (fatal error : Run α).StaysAmong P :=
  (staysAmong_log _).bind fun _ _ => .throw _

/-- A result of a computation that is one with a property. -/
theorem upholds_ofExcept {Q : α → Prop} {result : Except Fault α}
    (property : ∀ a, result = .ok a → Q a) :
    Upholds (Machine.Among P) Q (ofExcept result) := by
  unfold ofExcept
  split
  · exact .pure (property _ rfl)
  · exact (staysAmong_log _).bind fun _ _ => .throw _
  · exact .throw _

/-- A store that keeps the tables shows nothing. -/
theorem staysAmong_store (a : Address) (n : Nat) {change : Memory → Memory}
    (kept : ∀ m, (change m).tables = m.tables) : (store a n change).StaysAmong P := by
  intro M among
  unfold store
  by_cases fits : (n == 0 || M.memory.spans a n) = true
  · rw [if_pos fits]
    exact ⟨among.withMemory ((kept M.memory).symm ▸ among.tables), trivial⟩
  · rw [if_neg fits]
    exact among

/-- A store of bytes does so. -/
theorem staysAmong_writeBytes (a : Address) (bytes : List UInt8) :
    (writeBytes a bytes).StaysAmong P :=
  staysAmong_store a _ fun m => Memory.tables_write m a bytes

/-- So does a fill. -/
theorem staysAmong_fillZero (a : Address) (n : Nat) : (fillZero a n).StaysAmong P :=
  staysAmong_store a n fun m => Memory.tables_write m a _

/-- So does taking a base away. -/
theorem staysAmong_clearBase (a : Address) : (clearBase a).StaysAmong P :=
  staysAmong_store a 8 fun m => Memory.tables_write m a _

/-- So does a store of a descriptor. -/
theorem staysAmong_writeDescriptor (a : Address) (d : Descriptor) :
    (writeDescriptor a d).StaysAmong P :=
  staysAmong_store a _ fun m => Memory.tables_writeFields m a _

/-- A descriptor that is read names a type with the property. -/
theorem upholds_readDescriptor (a : Address) :
    Upholds (Machine.Among P) (Descriptor.Among P) (readDescriptor a) := by
  refine Upholds.get.bind fun M among => ?_
  dsimp only
  split
  · exact .throw _
  · split
    · next d there => exact .pure (among.descriptor? there)
    · exact .throw _

/-- An owner that is found names a table. -/
theorem upholds_readOwner (a : Address) :
    Upholds (Machine.Among P) (fun owner => ∀ d data, owner = some (d, data) → d.Among P)
      (readOwner a) := by
  refine Upholds.get.bind fun M _ => ?_
  dsimp only
  split
  · exact .throw _
  · split
    · exact .pure nofun
    · refine (upholds_readDescriptor a).bind fun d among => .pure fun d' data found => ?_
      obtain ⟨_, _, same⟩ := Option.map_eq_some_iff.mp found
      cases same
      exact among

/-- A call shows no types. -/
theorem staysAmong_call (kept : env.KeepsAmong P) (p : Procedure) (entry : EntryPoint)
    (argument : Argument) :
    (do let _ ← call env p entry argument : Run Unit).StaysAmong P := by
  refine Upholds.bind (P := fun _ => True) (fun M among => ?_) fun _ _ => .pure trivial
  rw [call_apply]
  exact ⟨(among.record (by simp)).withMemory (kept _ _ _ among.tables), trivial⟩

/-- A request for a block shows no types. -/
theorem staysAmong_requestBlock (env : Environment) (size : Nat) :
    (requestBlock env size).StaysAmong P := by
  intro M among
  cases granted : env.grants M size with
  | true =>
    rw [requestBlock_of_grants granted]
    have grown := among.withMemory (m := (M.memory.allocate size (env.place M size)).2) among.tables
    exact ⟨grown.record (by simp), trivial⟩
  | false =>
    rw [requestBlock_of_not_grants granted]
    exact ⟨among.record (by simp), trivial⟩

/-- Freeing storage shows no types. -/
theorem staysAmong_freeStorage (d : Descriptor) (data : Address) :
    (freeStorage d data).StaysAmong P := by
  unfold freeStorage
  split
  · refine (staysAmong_log _).bind fun _ _ => Upholds.get.bind fun M _ => ?_
    split
    · exact Upholds.bind (P := fun _ => True) (fun _ among =>
        ⟨among.withMemory among.tables, trivial⟩)
        fun _ _ _ among => ⟨among.record (by simp), trivial⟩
    · exact .throw _
  · exact staysAmong_log _

end Run

/-! ### Default values -/

/-- A step towards a default value shows the type that asks for it. -/
theorem DefaultStep.staysAmong_run (kept : env.KeepsAmong P) {ty : DerivedType} {a : Address}
    {step : DefaultStep} (own : step.Own env.context ty a) (among : P ty) :
    (step.run env).StaysAmong P := by
  cases own with
  | copyImage image =>
    exact (Run.staysAmong_trace (.init ty .image) among).bind fun _ _ =>
      Run.staysAmong_writeBytes _ _
  | callInitializer =>
    exact (Run.staysAmong_trace (.init ty .procedure) among).bind fun _ _ =>
      Run.staysAmong_call kept _ _ _
  | zeroFill =>
    exact (Run.staysAmong_trace (.init ty .zeroFill) among).bind fun _ _ =>
      Run.staysAmong_fillZero _ _
  | enterComponents => exact Run.staysAmong_trace (.init ty .components) among

section

variable (handed : DerivedType.HandedOn P) (kept : env.KeepsAmong P)
include handed kept

/-- Default initialization of an instance shows types within its own. -/
theorem DerivedType.staysAmong_setDefault {ty : DerivedType} (among : P ty) (a : Address) :
    (ty.setDefault env a).StaysAmong P := by
  rw [setDefault_eq]
  refine .forM fun step mem => ?_
  have deeper : ∀ outer b nested e, P outer → Part.element nested e ∈ outer.parts b → P nested := by
    intro outer b nested e among part
    obtain ⟨c, there, shape, embedded⟩ := exists_embedded_of_mem_parts part
    exact handed outer c nested among there (Component.derivedType?_of_embedded? embedded)
  obtain ⟨inner, b, among', own⟩ :=
    exists_own_of_mem_defaultSteps (P := fun inner _ => P inner) deeper among step mem
  exact DefaultStep.staysAmong_run kept own among'

/-- Default initialization of elements shows types within theirs. -/
theorem Descriptor.staysAmong_setDefaults {d : Descriptor} (among : d.Among P) (data : Address) :
    (d.setDefaults env data).StaysAmong P := by
  unfold setDefaults
  split
  · exact .pure trivial
  · next ty named =>
    split
    · rw [forElements_eq]
      exact .forM fun e _ => DerivedType.staysAmong_setDefault handed kept
        (among.of_derivedType? named) e
    · exact .pure trivial

end

/-! ### Steps of teardowns -/

section

variable (handed : DerivedType.HandedOn P) (kept : env.KeepsAmong P)
include handed kept

/-- A step of a teardown shows the type that asks for it. A release goes on with a type that memory
    names. -/
theorem TeardownStep.staysAmong_run {ty : DerivedType} {step : TeardownStep} {finalize : Bool}
    (own : step.Own env.context finalize ty) (among : P ty) (depth : Nat) :
    (step.run env depth).StaysAmong P := by
  -- A step inside a release has less depth left than the release.
  induction depth using Nat.strong_induction_on generalizing step ty finalize with
  | _ depth ih =>
    cases own with
    | finalizeScalar _ mem _ _ a | finalizeArray _ mem _ _ a =>
      rw [TeardownStep.run]
      exact (Run.staysAmong_trace (.finalize ty _) ⟨among, mem⟩).bind fun _ _ =>
        Run.staysAmong_call kept _ _ _
    | enterComponents =>
      rw [TeardownStep.run]
      exact Run.staysAmong_trace (.destroyComponents ty) among
    | enterParent named =>
      rw [TeardownStep.run]
      exact Run.staysAmong_trace (.enterParent ty _) ⟨among, handed.parent among named⟩
    | orphan link =>
      rw [TeardownStep.run]
      exact Run.staysAmong_fatal _
    | @release c mem _ a below _ =>
      rw [TeardownStep.run]
      refine (Run.upholds_readOwner _).bind fun owner found => ?_
      cases owner with
      | none => exact .pure trivial
      | some owner =>
        -- Without depth left the release ends here. Otherwise elements are torn down, and storage
        -- is given back.
        obtain ⟨d, data⟩ := owner
        refine (Run.staysAmong_trace (.release ty c) ⟨among, mem⟩).bind fun _ _ => ?_
        have given :
            (do Run.freeStorage d data; Run.clearBase (a + c.offset.toNat) : Run Unit).StaysAmong
              P :=
          (Run.staysAmong_freeStorage d data).bind fun _ _ => Run.staysAmong_clearBase _
        cases depth with
        | zero => exact Upholds.bind (P := fun _ => True) (.throw _) fun _ _ => given
        | succ depth =>
          dsimp only
          rw [d.forArraySteps_eq]
          refine Upholds.bind (.forM fun step there => ?_) fun _ _ => given
          have named : ∀ ty, d.derivedType? = some ty → P ty :=
            fun _ => (found d data rfl).of_derivedType?
          obtain ⟨inner, among', own⟩ :=
            Descriptor.stepsAmong_arraySteps handed env.context named data below step there
          exact ih depth (Nat.lt_succ_self depth) own among'

/-- Steps that types with a property ask for uphold the provenance, in any order. -/
theorem TeardownStep.staysAmong_forM {steps : List TeardownStep} {finalize : Bool}
    (among : DerivedType.StepsAmong P env.context finalize steps) :
    (do
      let depth ← Run.ownershipDepth
      steps.forM (TeardownStep.run env depth) : Run Unit).StaysAmong P := by
  refine Upholds.bind (P := fun _ => True) (fun _ among => ⟨among, trivial⟩) fun depth _ =>
    .forM fun step mem => ?_
  obtain ⟨ty, among', own⟩ := among step mem
  exact TeardownStep.staysAmong_run handed kept own among' depth

/-! ### Operations -/

namespace DerivedType

variable {ty : DerivedType} (among : P ty) (a : Address) (finalize : Bool)
include among

/-- Teardown of an instance shows types within its own. -/
theorem staysAmong_destroyScalar : (ty.destroyScalar env a finalize).StaysAmong P := by
  rw [destroyScalar_eq]
  exact TeardownStep.staysAmong_forM handed kept (stepsAmong_scalarSteps handed _ among a finalize)

/-- So does that of its components. -/
theorem staysAmong_destroyComponents : (ty.destroyComponents env a finalize).StaysAmong P := by
  rw [destroyComponents_eq]
  exact TeardownStep.staysAmong_forM handed kept
    (stepsAmong_componentSteps handed _ among a finalize)

end DerivedType

namespace Descriptor

variable {d : Descriptor} (among : d.Among P)
include among

/-- Teardown of elements shows types within theirs. -/
theorem staysAmong_destroyElements (data : Option Address) (finalize : Bool) :
    (d.destroyElements env data finalize).StaysAmong P := by
  cases data with
  | none => exact .pure trivial
  | some data =>
    rw [destroyElements_eq]
    exact TeardownStep.staysAmong_forM handed kept
      (stepsAmong_arraySteps handed env.context (fun _ => among.of_derivedType?) data finalize)

/-- An allocation leaves a descriptor that names the same type. -/
theorem upholds_allocate (lower upper : List Subscript) :
    Upholds (Machine.Among P) (fun result => result.1.Among P) (d.allocate env lower upper) := by
  unfold allocate
  split
  · exact .pure among
  · have bounded : ∀ d', d.setBounds lower upper = .ok d' → d'.Among P := by
      intro d' ended
      obtain ⟨_, rfl⟩ := eq_of_setBounds ended
      exact among
    refine (Run.upholds_ofExcept bounded).bind fun d' among' => ?_
    refine (Run.staysAmong_requestBlock env _).bind fun block _ => ?_
    cases block with
    | none => exact .pure among'
    | some block =>
      refine (Run.staysAmong_log _).bind fun _ _ => ?_
      exact (staysAmong_setDefaults handed kept (d := { d' with base := _ }) among' _).bind
        fun _ _ => .pure among'

/-- A deallocation leaves a descriptor that names the same type. -/
theorem upholds_deallocate (finalize : Bool) :
    Upholds (Machine.Among P) (fun result => result.1.Among P) (d.deallocate env finalize) := by
  unfold deallocate
  split
  · exact .pure among
  · split
    · exact .pure among
    · exact (staysAmong_destroyElements handed kept among _ finalize).bind fun _ _ =>
        (Run.staysAmong_freeStorage d _).bind fun _ _ => .pure among

end Descriptor

end

end DerivedTypes
