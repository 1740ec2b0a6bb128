import DerivedTypes.Proofs.DefaultValue.Refinement

namespace DerivedTypes

/-!
# Default values as overlays

Where initializers do nothing but store fixed bytes, default initialization never looks at memory.
Which bytes it stores, and where, depends on the type, the context and the address. So it lays the
same bytes over any memory, and records the same events on the way.

* `Memory.Accommodates`: there is room for an instance and for what its initializers store;
* `DerivedType.exists_setDefault_undergoes`: default initialization records its events and has its
  effects;
* `Machine.Undergoes.same_or_kept`, `Machine.Undergoes.memory_again`: the same effects in two
  machines, and in one machine twice;
* `DerivedType.setDefault_overlays`: all of it together.
-/

/-! ### The same effects again -/

namespace Machine.Undergoes

variable {fixed : FixedStores} {effects : List Effect} {M M' M'' N N' : Machine}

/-- The same effects leave one value at an address in two machines, or leave both values as they
    were. -/
theorem same_or_kept (h : M.Undergoes fixed effects M') (h' : N.Undergoes fixed effects N')
    (b : Address) :
    (∃ value, M'.memory.byte? b = some value ∧ N'.memory.byte? b = some value) ∨
      (M'.memory.byte? b = M.memory.byte? b ∧ N'.memory.byte? b = N.memory.byte? b) := by
  rw [h.byte?, h'.byte?]
  cases Effect.last? fixed effects b with
  | some value => exact .inl ⟨value, Option.some_or, Option.some_or⟩
  | none => exact .inr ⟨Option.none_or, Option.none_or⟩

/-- Effects that happen again leave memory as it is. -/
theorem memory_again (h : M.Undergoes fixed effects M') (h' : M'.Undergoes fixed effects M'') :
    M''.memory = M'.memory := by
  refine h'.shape.eq_of_byte? fun b => ?_
  rw [h'.byte?, h.byte?]
  cases Effect.last? fixed effects b with
  | some value => rw [Option.some_or, Option.some_or]
  | none => rw [Option.none_or, Option.none_or]

end Machine.Undergoes

/-! ### Room for a default value -/

/-- There is room for an instance, and for what the initializers store that are called on the way to
    its default value, inside the instance or not. -/
structure Memory.Accommodates (m : Memory) (context : ExecutionContext) (fixed : FixedStores)
    (ty : DerivedType) (a : Address) : Prop where
  whole : m.Admits a ty.size.toNat
  calls : ∀ p entry b, .call p entry b ∈ ty.defaultEffects context a →
    ∀ f ∈ fixed entry, m.Admits (b + f.1) f.2.length

namespace Memory

variable {m : Memory} {context : ExecutionContext} {fixed : FixedStores} {ty : DerivedType}
  {a : Address}

/-- In an instance that is laid out, there is room for all effects. -/
theorem Accommodates.roomFor (h : m.Accommodates context fixed ty a)
    (laid : ty.Throughout DerivedType.LaidOut) :
    m.RoomFor fixed (ty.defaultEffects context a) := by
  intro e mem s stored
  cases e with
  | store s' =>
    exact h.whole.inside (DerivedType.inside_defaultEffects
      laid.effectsInside_silent _ mem s stored)
  | call p entry b =>
    obtain ⟨f, there, rfl⟩ := List.mem_map.mp stored
    exact h.calls p entry b mem f there

/-- Initializers that keep to their instances need no other room. -/
theorem Admits.accommodates (room : m.Admits a ty.size.toNat)
    (sound : ty.Throughout (DerivedType.EffectsInside context fixed)) :
    m.Accommodates context fixed ty a where
  whole := room
  calls := fun _ _ _ mem f there =>
    room.roomFor (DerivedType.inside_defaultEffects sound) _ mem ⟨_, f.2⟩
      (List.mem_map_of_mem there)

end Memory

/-! ### Default initialization -/

namespace DerivedType

/-- The code of the initializer does nothing to memory but store its fixed bytes. -/
def InitializesFixed (env : Environment) (fixed : FixedStores) (ty : DerivedType) : Prop :=
  ∀ p entry, ty.initializerEntry? env.context = some (p, entry) → env.StoresFixedAt fixed entry

/-- What default initialization records. -/
def defaultEvents (env : Environment) (ty : DerivedType) (a : Address) : List Event :=
  (ty.defaultSteps env.context a).flatMap (·.events env)

variable {env : Environment} {fixed : FixedStores} {ty : DerivedType} {a : Address}

/-- Each initializer that is called is that of a type in the instance. -/
theorem callsFixed_defaultSteps (code : ty.Throughout (InitializesFixed env fixed)) :
    ∀ step ∈ ty.defaultSteps env.context a, step.CallsFixed env fixed := by
  intro step mem
  obtain ⟨inner, b, code, own⟩ := exists_own_of_mem_defaultSteps
    (P := fun inner _ => inner.Throughout (InitializesFixed env fixed))
    (fun _ _ _ _ code part => code.of_mem_parts part) code step mem
  cases own with
  | callInitializer there => exact code.own _ _ there
  | _ => trivial

/-- Default initialization records its events and has its effects, if there is room for them. -/
theorem exists_setDefault_undergoes (code : ty.Throughout (InitializesFixed env fixed))
    {M : Machine} (room : M.memory.RoomFor fixed (ty.defaultEffects env.context a)) :
    ∃ m, ty.setDefault env a M = .ok () ((M.recordAll (ty.defaultEvents env a)).withMemory m) ∧
      M.Undergoes fixed (ty.defaultEffects env.context a)
        ((M.recordAll (ty.defaultEvents env a)).withMemory m) := by
  obtain ⟨M', run, underwent⟩ :=
    DefaultStep.exists_forM_undergoes (callsFixed_defaultSteps code) room
  have recorded := DefaultStep.recorded_of_forM run
  refine ⟨M'.memory, ?_, ?_⟩
  · rw [setDefault_eq, run]
    exact congrArg _ recorded
  · rw [defaultEvents, ← recorded]
    exact underwent

/-- Default initialization of an instance records the same events on any two machines, calls of
    initializers among them. Every byte of memory has the same value after both, or is as it was
    before in both. If it is done twice, then memory stays as it was left the first time. -/
theorem setDefault_overlays {M N : Machine} (laid : ty.Throughout LaidOut)
    (code : ty.Throughout (InitializesFixed env fixed))
    (room : M.memory.Accommodates env.context fixed ty a)
    (room' : N.memory.Accommodates env.context fixed ty a) :
    ∃ m n,
      ty.setDefault env a M = .ok () ((M.recordAll (ty.defaultEvents env a)).withMemory m) ∧
      ty.setDefault env a N = .ok () ((N.recordAll (ty.defaultEvents env a)).withMemory n) ∧
      (∀ b, (∃ value, m.byte? b = some value ∧ n.byte? b = some value) ∨
        (m.byte? b = M.memory.byte? b ∧ n.byte? b = N.memory.byte? b)) ∧
      ty.setDefault env a ((M.recordAll (ty.defaultEvents env a)).withMemory m) =
        .ok () ((M.recordAll (ty.defaultEvents env a ++ ty.defaultEvents env a)).withMemory m) := by
  have fits := room.roomFor laid
  obtain ⟨m, run, underwent⟩ := exists_setDefault_undergoes code fits
  obtain ⟨n, run', underwent'⟩ := exists_setDefault_undergoes code (room'.roomFor laid)
  obtain ⟨again, run'', underwent''⟩ := exists_setDefault_undergoes code (underwent.roomFor fits)
  refine ⟨m, n, run, run', underwent.same_or_kept underwent', ?_⟩
  obtain rfl : again = m := underwent.memory_again underwent''
  rw [run'', Machine.recordAll_append]
  rfl

namespace Record

/-- A buffer of the size of a record, full of one value. -/
def filled (value : UInt8) : Machine := ⟨.ofBuffers default #[] [.replicate 464 value], #[]⟩

/-- There is room for a record, whatever is in it. -/
theorem admits_filled (value : UInt8) :
    (filled value).memory.Admits ⟨.buffer 0, 0⟩ record.size.toNat := by
  refine .inr (Memory.spans_iff.mpr ⟨(List.replicate 464 value).toArray, rfl, ?_⟩)
  rw [List.size_toArray, List.length_replicate]
  decide

end Record

/-- Default initialization lays the same bytes over a buffer of nines and over one of fives. -/
theorem setDefault_record_overlays : ∃ m n,
    let events := Record.record.defaultEvents Record.environment ⟨.buffer 0, 0⟩
    Record.record.setDefault Record.environment ⟨.buffer 0, 0⟩ (Record.filled 9) =
      .ok () (((Record.filled 9).recordAll events).withMemory m) ∧
    Record.record.setDefault Record.environment ⟨.buffer 0, 0⟩ (Record.filled 5) =
      .ok () (((Record.filled 5).recordAll events).withMemory n) ∧
    (∀ b, (∃ value, m.byte? b = some value ∧ n.byte? b = some value) ∨
      (m.byte? b = (Record.filled 9).memory.byte? b ∧
        n.byte? b = (Record.filled 5).memory.byte? b)) ∧
    Record.record.setDefault Record.environment ⟨.buffer 0, 0⟩
      (((Record.filled 9).recordAll events).withMemory m) =
      .ok () (((Record.filled 9).recordAll (events ++ events)).withMemory m) := by
  have sound := Record.throughout_record.effectsInside
  have laid : Record.record.Throughout LaidOut := sound.imp fun _ sound => sound.laidOut
  have code : Record.record.Throughout (InitializesFixed Record.environment Record.fixed) :=
    laid.imp fun _ _ _ _ _ _ _ _ => rfl
  exact setDefault_overlays laid code ((Record.admits_filled 9).accommodates sound)
    ((Record.admits_filled 5).accommodates sound)

end DerivedType

end DerivedTypes
