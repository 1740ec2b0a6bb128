import DerivedTypes.Proofs.Descriptor.LenSlots
import DerivedTypes.Proofs.Trace.Provenance
import DerivedTypes.Session

namespace DerivedTypes

/-!
# What the traces of a program show

A program names types in its commands and in the tables with which it starts. Its descriptors name
no others, whether they are local or in memory. So all that its commands trace are types among
these, and types inside of them.

* `Command.types`: the types that a command names;
* `Command.upholds_run`: a command upholds the provenance of traces;
* `Session.Among.runAll`: so does a program, from a new session on, however it ends.
-/

/-- The types of a session are among those with a property: those of its machine and of its local
    descriptors. -/
structure Session.Among (P : DerivedType → Prop) (s : Session) : Prop where
  machine : s.machine.Among P
  locals : ∀ d ∈ s.locals, d.Among P

/-- The types that a command names. -/
def Command.types : Command → List DerivedType
  | checkLayout ty | setDefault ty _ | destroyComponents ty .. | destroyScalar ty
      .. | initDerived _ ty _
  | establishDerived _ ty .. => [ty]
  | assign _ d => d.addendumType.toList
  | setField _ (.addendumType ty) => ty.toList
  | _ => []

variable {P : DerivedType → Prop} {env : Environment}

/-! ### Descriptors -/

/-- A sequence that succeeds consists of two computations that do. -/
theorem exists_of_bind_eq_ok {α β : Type} {x : Except Fault α} {f : α → Except Fault β} {b : β}
    (ended : x >>= f = .ok b) : ∃ a, x = .ok a ∧ f a = .ok b := by
  cases x with
  | error fault => cases ended
  | ok a => exact ⟨a, rfl, ended⟩

namespace Descriptor

variable {d d' : Descriptor}

/-- A zeroed descriptor names no type. -/
theorem among_zeroed : zeroed.Among P := nofun

/-- An established descriptor names the type that is given. -/
theorem among_of_establishDerived {ty : DerivedType} (named : P ty) {base : Option Address}
    {extents : List Subscript} {attr : Attribute}
    (ended : d.establishDerived ty base extents attr = .ok d') : d'.Among P := by
  obtain ⟨_, _, same⟩ := exists_of_bind_eq_ok ended
  cases same
  rintro _ ⟨⟩
  exact named

/-- A descriptor of intrinsic type names no type. -/
theorem among_of_establishIntrinsic {typeCode : TypeCode} {elementSize : UInt64}
    {base : Option Address} {extents : List Subscript} {attr : Attribute}
    (ended : d.establishIntrinsic typeCode elementSize base extents attr = .ok d') :
    d'.Among P := by
  obtain ⟨_, _, same⟩ := exists_of_bind_eq_ok ended
  cases same
  exact nofun

/-- A new field names a type only if it is one. -/
theorem among_of_setField {value : FieldValue}
    (named : ∀ ty, value = .addendumType (some ty) → P ty) (among : d.Among P)
    (ended : d.setField value = .ok d') : d'.Among P := by
  cases value with
  | addendumType given =>
    cases ended
    rintro ty ⟨⟩
    exact named ty rfl
  | dimension position dim =>
    rw [setField] at ended
    split at ended
    · cases ended
      exact among
    · cases ended
  | rank | elementSize | flags | attr | typeCode | base =>
    cases ended
    exact among

namespace Among

variable (among : d.Among P)
include among

/-- New bounds change no type. -/
theorem setBounds {lower upper : List Subscript} (ended : d.setBounds lower upper = .ok d') :
    d'.Among P := by
  obtain ⟨_, rfl⟩ := eq_of_setBounds ended
  exact among

/-- A new LEN value changes no type. -/
theorem setLenValue {slot : Nat} {value : Subscript} (ended : d.setLenValue slot value = .ok d') :
    d'.Among P := by
  unfold Descriptor.setLenValue at ended
  split at ended
  · cases ended
    exact among
  · cases ended

omit among in
/-- Nor do several values. -/
theorem storeLenValues {values : List (Nat × Subscript)} (among : d.Among P)
    (ended : d.storeLenValues values = .ok d') : d'.Among P := by
  induction values generalizing d with
  | nil =>
    cases ended
    exact among
  | cons value rest ih =>
    obtain ⟨_, first, others⟩ := exists_of_bind_eq_ok ended
    exact ih (among.setLenValue first) others

/-- Explicit values change no type. -/
theorem applyLenValues {values : List Subscript} {outcome : Outcome}
    (ended : d.applyLenValues values = .ok (d', outcome)) : d'.Among P := by
  cases named : d.derivedType? with
  | none =>
    rw [applyLenValues_of_unnamed named] at ended
    cases ended
    exact among
  | some ty =>
    by_cases count : values.length = ty.lenParameters.length
    · rw [applyLenValues_of_length_eq named count] at ended
      -- The values of an allocated variable are compared, those of others are stored.
      split at ended
      · cases held : d.holdsLenValues ((lenSlotsOf ty).zip values) <;>
        rw [held] at ended <;> cases ended
        exact among
      · cases stored : d.storeLenValues ((lenSlotsOf ty).zip values) <;>
        rw [stored] at ended <;> cases ended
        exact among.storeLenValues stored
    · rw [applyLenValues_of_length_ne named count] at ended
      cases ended
      exact among

end Among

end Descriptor

/-! ### Dialogues -/

namespace Dialogue

variable {α : Type} {Q : α → Prop}

/-- What operations uphold for the machine is upheld for the session. -/
theorem upholds_onMachine {x : Run α} (h : Upholds (Machine.Among P) Q x) :
    Upholds (Session.Among P) Q (onMachine x) := by
  rintro ⟨M, locals⟩ among
  unfold onMachine
  cases ended : x M with
  | ok a M' =>
    obtain ⟨among', property⟩ := h.of_ok among.machine ended
    simpa only [ended] using ⟨⟨among', among.locals⟩, property⟩
  | error fault M' => simpa only [ended] using ⟨h.of_error among.machine ended, among.locals⟩

/-- What is read names a type of the session. -/
theorem upholds_read (place : Place) :
    Upholds (Session.Among P) (Descriptor.Among P) (read place) := by
  cases place with
  | localVariable index =>
    refine Upholds.get.bind fun s among => ?_
    cases there : s.locals[index]? with
    | none => exact .throw _
    | some d => exact .pure (among.locals d (List.mem_of_getElem? there))
  | stored a => exact upholds_onMachine (Run.upholds_readDescriptor a)

/-- So does reading from a place that may be missing. -/
theorem upholds_readOptional (place : Option Place) :
    Upholds (Session.Among P) (fun _ => True) (readOptional place) := by
  cases place with
  | none => exact .pure trivial
  | some place => exact (upholds_read place).bind fun _ _ => .pure trivial

/-- A descriptor that names a type of the session can be written. -/
theorem upholds_write (place : Place) {d : Descriptor} (among : d.Among P) :
    Upholds (Session.Among P) (fun _ => True) (write place d) := by
  cases place with
  | localVariable index =>
    refine fun s good => ⟨⟨good.machine, fun other mem => ?_⟩, trivial⟩
    rcases List.mem_or_eq_of_mem_set mem with old | rfl
    · exact good.locals other old
    · exact among
  | stored a => exact upholds_onMachine (Run.staysAmong_writeDescriptor a d)

/-- A change upholds provenance if the changed descriptor names a type of the session. -/
theorem upholds_update (place : Place) {f : Descriptor → Except Fault Descriptor}
    (each : ∀ d d', d.Among P → f d = .ok d' → d'.Among P) :
    Upholds (Session.Among P) (fun _ => True) (update place f) :=
  (upholds_read place).bind fun d among =>
    (upholds_onMachine (Run.upholds_ofExcept fun d' ended => each d d' among ended)).bind
      fun _ among' =>
        upholds_write place among'

/-- So does a statement. -/
theorem upholds_statement (place : Place) {f : Descriptor → Run (Descriptor × Outcome)}
    (each : ∀ d, d.Among P → Upholds (Machine.Among P) (fun result => result.1.Among P) (f d)) :
    Upholds (Session.Among P) (fun _ => True) (statement place f) :=
  (upholds_read place).bind fun d among =>
    (upholds_onMachine (each d among)).bind fun _ among' =>
      (upholds_write place among').bind fun _ _ => .pure trivial

end Dialogue

/-! ### Commands -/

/-- The check of a layout shows no types. -/
theorem Run.staysAmong_checkLayout (ty : DerivedType) : (Run.checkLayout ty).StaysAmong P := by
  unfold Run.checkLayout
  cases ty.checkLayout with
  | ok => exact .pure trivial
  | error e => exact (staysAmong_log _).bind fun _ _ => .pure trivial

/-- A message shows no types. -/
theorem Outcome.staysAmong_stat (outcome : Outcome) (errmsg : Option Descriptor) :
    (Outcome.stat outcome errmsg).StaysAmong P := by
  cases outcome with
  | ok => exact .pure trivial
  | error e =>
    refine Upholds.bind (P := fun _ => True) ?_ fun _ _ => .pure trivial
    unfold StatError.writeMessage
    split
    · exact .pure trivial
    · split
      · exact Run.staysAmong_store _ _ fun m => Memory.tables_write m _ _
      · exact Run.staysAmong_log _

section

variable (handed : DerivedType.HandedOn P) (kept : env.KeepsAmong P)
include handed kept

open Dialogue in
/-- A command that names types with a property upholds the provenance of what is traced. -/
theorem Command.upholds_run {command : Command} (named : ∀ ty ∈ command.types, P ty) :
    Upholds (Session.Among P) (fun _ => True) (command.run env) := by
  -- Commands end with an answer, which names nothing.
  have answers {α : Type} {x : Dialogue α} {f : α → Answer} {Q : α → Prop}
      (h : Upholds (Session.Among P) Q x) :
      Upholds (Session.Among P) (fun _ => True) (x >>= fun a => pure (f a)) :=
        h.bind fun _ _ => .pure trivial
  cases command with
  | checkLayout ty => exact answers (upholds_onMachine (Run.staysAmong_checkLayout ty))
  | setDefault ty a =>
    exact answers
      (upholds_onMachine (DerivedType.staysAmong_setDefault handed kept
        (named ty List.mem_cons_self) a))
  | destroyComponents ty a finalize =>
    exact answers (upholds_onMachine
      (DerivedType.staysAmong_destroyComponents handed kept
        (named ty List.mem_cons_self) a finalize))
  | destroyScalar ty a finalize =>
    exact answers (upholds_onMachine
      (DerivedType.staysAmong_destroyScalar handed kept (named ty List.mem_cons_self) a finalize))
  | setDefaults place data =>
    exact (upholds_read place).bind fun d among =>
      answers (upholds_onMachine (Descriptor.staysAmong_setDefaults handed kept among data))
  | destroyElements place data finalize =>
    exact (upholds_read place).bind fun d among =>
      answers
        (upholds_onMachine (Descriptor.staysAmong_destroyElements handed kept among data finalize))
  | allocate place lower upper =>
    exact answers (upholds_statement place fun d among =>
      Descriptor.upholds_allocate handed kept among lower upper)
  | deallocate place finalize =>
    exact answers (upholds_statement place fun d among =>
      Descriptor.upholds_deallocate handed kept among finalize)
  | applyLenValues place values =>
    exact answers (upholds_statement place fun d among =>
      Run.upholds_ofExcept fun (_, _) ended => among.applyLenValues ended)
  | stat outcome errmsg =>
    exact (upholds_readOptional errmsg).bind fun errmsg _ =>
      answers (upholds_onMachine (Outcome.staysAmong_stat outcome errmsg))
  | checkAllocated place errmsg =>
    exact (upholds_read place).bind fun d _ => (upholds_readOptional errmsg).bind fun errmsg _ =>
      answers (upholds_onMachine (Outcome.staysAmong_stat _ errmsg))
  | initIntrinsic | initCharacter | establishIntrinsic =>
    exact answers (upholds_update _ fun d d' _ ended =>
      Descriptor.among_of_establishIntrinsic ended)
  | initDerived place ty | establishDerived place ty =>
    exact answers (upholds_update _ fun d d' _ ended =>
      Descriptor.among_of_establishDerived (named ty List.mem_cons_self) ended)
  | assign place d =>
    exact answers (upholds_write place fun ty same => named ty (Option.mem_toList.mpr same))
  | copy place source =>
    exact (upholds_read source).bind fun d among => answers (upholds_write place among)
  | setBounds place lower upper =>
    exact answers (upholds_update place fun d d' among ended => among.setBounds ended)
  | setLenValue place slot value =>
    exact answers (upholds_update place fun d d' among ended => among.setLenValue ended)
  | suppressFinalization place suppress =>
    refine answers (upholds_update place fun d d' among ended => ?_)
    cases ended
    exact among
  | setField place value =>
    have given (ty : DerivedType) (same : value = .addendumType (some ty)) : P ty := by
      subst same
      exact named ty (Option.mem_toList.mpr rfl)
    exact answers (upholds_update place fun d d' among ended =>
      Descriptor.among_of_setField given among ended)
  | writeBytes a bytes => exact answers (upholds_onMachine (Run.staysAmong_writeBytes a bytes))

end

/-- A new session has the tables of the program and no other types. -/
theorem Session.among_start {tables : Array DerivedType} (named : ∀ ty ∈ tables, P ty)
    (loader : Loader) (buffers : List (List UInt8)) (locals : Nat) :
    (Session.start loader tables buffers locals).Among P where
  machine := ⟨named, nofun⟩
  locals := by
    intro d mem
    obtain rfl := List.eq_of_mem_replicate mem
    exact Descriptor.among_zeroed

/-- The session that a program leaves, however it ends. -/
def Dialogue.leaves {α : Type} (x : Dialogue α) (s : Session) : Session :=
  match x s with
  | .ok _ s' | .error _ s' => s'

/-- All that a program traces are types among those that it names, and types inside of them. -/
theorem Session.Among.runAll {s : Session} (among : s.Among P) (handed : DerivedType.HandedOn P)
    (kept : env.KeepsAmong P) {commands : List Command}
    (named : ∀ command ∈ commands, ∀ ty ∈ command.types, P ty) :
    ((Command.runAll env commands).leaves s).Among P := by
  have upholds : Upholds (Session.Among P) (fun _ => True) (Command.runAll env commands) :=
    .forM fun command mem => (Command.upholds_run handed kept (named command mem)).bind fun _ _ =>
      .pure trivial
  unfold Dialogue.leaves
  cases ended : Command.runAll env commands s with
  | ok _ s' => exact (upholds.of_ok among ended).1
  | error fault s' => exact upholds.of_error among ended

end DerivedTypes
