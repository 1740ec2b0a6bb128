import DerivedTypes.Machine.DefaultValue
import DerivedTypes.Proofs.Machine.Outcome

namespace DerivedTypes

/-!
# Effects of default initialization

Default initialization stores bytes and calls initializers. Where initializers do nothing but store
fixed bytes, what a sequence of such `Effect`s leaves behind can be told without running it.

* `Store.last?`: the byte that a list of stores leaves at an address, if one of them reaches it;
* `Machine.Undergoes`: one machine comes out of another by a list of effects;
* `Effect.exists_forM`, `DefaultStep.exists_forM`: a run does what its effects say;
* `DefaultStep.events`: what a step records. Whatever code does to memory, a run records the events
  of its steps and nothing else (`DefaultStep.recorded_of_forM`).
-/

/-! ### Stores -/

/-- Some bytes, to be stored from an address on. -/
structure Store where
  address : Address
  bytes : List UInt8

namespace Store

/-- A store changes the byte at an address. -/
def Reaches (s : Store) (b : Address) : Prop :=
  b.InSpan s.address s.bytes.length

/-- The byte that a store puts at an address. -/
def byte? (s : Store) (b : Address) : Option UInt8 :=
  if b.region = s.address.region ∧ s.address.offset ≤ b.offset then
    s.bytes[b.offset - s.address.offset]?
  else none

/-- The byte that stores leave at an address, one after the other. -/
def last? : List Store → Address → Option UInt8
  | [], _ => none
  | s :: rest, b => (last? rest b).or (s.byte? b)

/-- All bytes of a store lie among the `n` bytes from `a` on. -/
def Inside (s : Store) (a : Address) (n : Nat) : Prop :=
  ∃ i, s.address = a + i ∧ i + s.bytes.length ≤ n

variable {s : Store} {a b : Address}

/-- A store has no byte for the places that it does not reach. -/
theorem byte?_eq_none_iff : s.byte? b = none ↔ ¬ s.Reaches b := by
  unfold byte? Reaches Address.InSpan
  split
  · next after =>
    simp only [after.1, after.2, List.getElem?_eq_none_iff, true_and]
    omega
  · next before =>
    simp only [true_iff]
    exact fun inside => before ⟨inside.1, inside.2.1⟩

/-- The bytes of a store begin at its address. -/
theorem byte?_add (a : Address) (bytes : List UInt8) (i : Nat) :
    byte? ⟨a, bytes⟩ (a + i) = bytes[i]? := by
  rw [byte?, if_pos ⟨rfl, Nat.le_add_right ..⟩, Address.offset_add, Nat.add_sub_cancel_left]

/-- A fill with zeros leaves zeros. -/
theorem byte?_zeros {n : Nat} (inside : b.InSpan a n) : byte? ⟨a, .replicate n 0⟩ b = some 0 := by
  obtain ⟨region, low, high⟩ := inside
  rw [byte?, if_pos ⟨region, low⟩]
  dsimp only
  rw [List.getElem?_replicate, if_pos (by omega)]

/-- A fill with zeros leaves nothing else. -/
theorem byte?_zeros_cases (a b : Address) (n : Nat) :
    byte? ⟨a, .replicate n 0⟩ b = none ∨ byte? ⟨a, .replicate n 0⟩ b = some 0 := by
  by_cases inside : b.InSpan a n
  · exact .inr (byte?_zeros inside)
  · refine .inl (byte?_eq_none_iff.mpr fun reached => inside ?_)
    rwa [Reaches, List.length_replicate] at reached

/-- No store leaves no byte. -/
@[simp] theorem last?_nil : last? [] b = none := rfl

/-- The last store to a byte is among the later ones, if one of these reaches it. -/
theorem last?_append (first second : List Store) (b : Address) :
    last? (first ++ second) b = (last? second b).or (last? first b) := by
  induction first with
  | nil => simp
  | cons s rest ih => rw [List.cons_append, last?, ih, Option.or_assoc, last?]

/-- Stores leave a byte exactly where one of them reaches. -/
theorem last?_eq_none_iff {stores : List Store} :
    last? stores b = none ↔ ∀ s ∈ stores, ¬ s.Reaches b := by
  induction stores with
  | nil => simp
  | cons s rest ih => simp [last?, ih, byte?_eq_none_iff, and_comm]

/-- A store inside a part lies inside the whole. -/
theorem Inside.mono {i k n : Nat} (h : s.Inside (a + i) k) (le : i + k ≤ n) : s.Inside a n := by
  obtain ⟨j, begins, fits⟩ := h
  exact ⟨i + j, by rw [begins, Address.add_add], by omega⟩

/-- What is reached by a store inside some bytes is one of them. -/
theorem Inside.inSpan {n : Nat} (h : s.Inside a n) (reached : s.Reaches b) : b.InSpan a n := by
  obtain ⟨i, begins, fits⟩ := h
  unfold Reaches at reached
  rw [begins] at reached
  exact reached.of_sub fits

end Store

namespace Memory

/-- There is room for a store inside bytes that there is room for. -/
theorem Admits.inside {m : Memory} {a : Address} {n : Nat} (h : m.Admits a n) {s : Store}
    (inside : s.Inside a n) : m.Admits s.address s.bytes.length := by
  obtain ⟨i, begins, fits⟩ := inside
  rw [begins]
  exact h.sub fits

/-- A store of no bytes changes nothing. -/
theorem region?_write_nil (m : Memory) (a : Address) (region : Region) :
    (m.write a []).region? region = m.region? region := by
  by_cases same : region = a.region
  · subst same
    rw [write, region?_modifyRegion_self]
    simp [overwrite]
  · exact region?_write_of_ne m [] same

/-- What lies at an address after a store. -/
theorem byte?_write_of_admits {m : Memory} {s : Store} (fits : m.Admits s.address s.bytes.length)
    (b : Address) : (m.write s.address s.bytes).byte? b = (s.byte? b).or (m.byte? b) := by
  rcases fits with none | room
  · obtain ⟨a, bytes⟩ := s
    obtain rfl := List.eq_nil_of_length_eq_zero none
    have outside : ¬ Store.Reaches ⟨a, []⟩ b := Address.not_inSpan_zero
    rw [Store.byte?_eq_none_iff.mpr outside, Option.none_or]
    exact byte?_congr (region?_write_nil m a _)
  · -- Only here the span lies in a region, and the address has a place among the bytes or none.
    rw [byte?_write room]
    by_cases reached : s.Reaches b
    · obtain ⟨region, low, high⟩ := id reached
      rw [if_pos ⟨region, low, high⟩, Store.byte?, if_pos ⟨region, low⟩,
        List.getElem?_eq_getElem (by omega), Option.some_or]
    · rw [Store.byte?_eq_none_iff.mpr reached, Option.none_or]
      exact if_neg reached

/-- What lies at an address after stores. -/
theorem byte?_writeFields {m : Memory} {a : Address} {fields : List (Nat × List UInt8)}
    (fits : ∀ f ∈ fields, m.Admits (a + f.1) f.2.length) (b : Address) :
    (m.writeFields a fields).byte? b =
      (Store.last? (fields.map fun f => ⟨a + f.1, f.2⟩) b).or (m.byte? b) := by
  induction fields generalizing m with
  | nil => rfl
  | cons f rest ih =>
    have next : (m.write (a + f.1) f.2).writeFields a rest = m.writeFields a (f :: rest) := rfl
    have here : m.Admits (a + f.1) f.2.length := fits f List.mem_cons_self
    have first := byte?_write_of_admits (s := ⟨a + f.1, f.2⟩) here b
    have later : ∀ g ∈ rest, (m.write (a + f.1) f.2).Admits (a + g.1) g.2.length := by
      intro g mem
      rw [Admits, spans_write]
      exact fits g (List.mem_cons_of_mem _ mem)
    rw [← next, ih later, first, List.map_cons, Store.last?, Option.or_assoc]

end Memory

/-! ### Effects -/

/-- The stores of the code at each entry point, with their offsets from the argument. -/
abbrev FixedStores := EntryPoint → List (Nat × List UInt8)

/-- The code at one entry point does nothing to memory but store its fixed bytes, where these
    fit. -/
def Environment.StoresFixedAt (env : Environment) (fixed : FixedStores) (entry : EntryPoint) :
    Prop :=
  ∀ a m, (∀ f ∈ fixed entry, m.Admits (a + f.1) f.2.length) →
    (env.code entry (.scalar a) m).2 = m.writeFields a (fixed entry)

/-- The code at an entry point does nothing to memory but store its fixed bytes, where these fit. -/
def Environment.StoresFixed (env : Environment) (fixed : FixedStores) : Prop :=
  ∀ entry a m, (∀ f ∈ fixed entry, m.Admits (a + f.1) f.2.length) →
    (env.code entry (.scalar a) m).2 = m.writeFields a (fixed entry)

/-- No code stores anything. -/
def FixedStores.silent : FixedStores := fun _ => []

/-- Code that leaves memory alone stores nothing. -/
theorem Environment.Inert.storesFixed {env : Environment} (inert : env.Inert) :
    env.StoresFixed .silent :=
  fun entry a m _ => inert entry (.scalar a) m

/-- What may happen on the way to a default value. -/
inductive Effect where
  /-- Bytes are stored. -/
  | store (s : Store)
  /-- An initializer is called. -/
  | call (procedure : Procedure) (entry : EntryPoint) (address : Address)

namespace Effect

/-- Lets an effect happen. -/
def run (env : Environment) : Effect → Run Unit
  | store s => Run.writeBytes s.address s.bytes
  | call procedure entry a => do
    let _ ← Run.call env procedure entry (.scalar a)

/-- The stores of an effect. -/
def stores (fixed : FixedStores) : Effect → List Store
  | store s => [s]
  | call _ entry a => (fixed entry).map fun f => ⟨a + f.1, f.2⟩

/-- The calls of an effect. -/
def calls : Effect → List (Procedure × Argument)
  | store _ => []
  | call procedure _ a => [(procedure, .scalar a)]

/-- The byte that effects leave at an address, one after the other. -/
def last? (fixed : FixedStores) (effects : List Effect) (b : Address) : Option UInt8 :=
  Store.last? (effects.flatMap (·.stores fixed)) b

/-- All stores of an effect lie among the `n` bytes from `a` on. -/
def Inside (fixed : FixedStores) (effect : Effect) (a : Address) (n : Nat) : Prop :=
  ∀ s ∈ effect.stores fixed, s.Inside a n

variable {fixed : FixedStores} {a b : Address}

/-- Without effects nothing is left behind. -/
@[simp] theorem last?_nil : last? fixed [] b = none := rfl

/-- Of two effects on a byte the second one is left behind. -/
theorem last?_append (first second : List Effect) (b : Address) :
    last? fixed (first ++ second) b = (last? fixed second b).or (last? fixed first b) := by
  rw [last?, List.flatMap_append, Store.last?_append]
  rfl

/-- A store leaves its bytes behind. -/
theorem last?_store (s : Store) (b : Address) : last? fixed [store s] b = s.byte? b := rfl

/-- Some store of the effects reaches an address. -/
def Reach (fixed : FixedStores) (effects : List Effect) (b : Address) : Prop :=
  ∃ e ∈ effects, ∃ s ∈ e.stores fixed, s.Reaches b

/-- Effects leave a byte exactly where one of their stores reaches. -/
theorem last?_eq_none_iff {effects : List Effect} :
    last? fixed effects b = none ↔ ¬ Reach fixed effects b := by
  rw [last?, Store.last?_eq_none_iff]
  constructor
  · rintro h ⟨e, mem, s, stored, reached⟩
    exact h s (List.mem_flatMap.mpr ⟨e, mem, stored⟩) reached
  · intro h s mem reached
    obtain ⟨e, there, stored⟩ := List.mem_flatMap.mp mem
    exact h ⟨e, there, s, stored, reached⟩

/-- What is reached has a value afterwards. -/
theorem Reach.exists_last? {effects : List Effect} (h : Reach fixed effects b) :
    ∃ value, last? fixed effects b = some value := by
  cases left : last? fixed effects b with
  | none => exact absurd h (last?_eq_none_iff.mp left)
  | some value => exact ⟨value, rfl⟩

/-- Effects inside a span leave no byte outside it. -/
theorem last?_of_not_inSpan {effects : List Effect} {n : Nat}
    (inside : ∀ e ∈ effects, e.Inside fixed a n) (outside : ¬ b.InSpan a n) :
    last? fixed effects b = none := by
  rw [last?_eq_none_iff]
  rintro ⟨e, mem, s, stored, reached⟩
  exact outside ((inside e mem s stored).inSpan reached)

/-- Fills with zeros leave zeros. -/
theorem eq_zero_of_last? {effects : List Effect} {n : Nat} {value : UInt8}
    (zeros : ∀ e ∈ effects, ∃ s, e = store ⟨s, .replicate n 0⟩)
    (there : last? fixed effects b = some value) : value = 0 := by
  induction effects with
  | nil => cases there
  | cons e rest ih =>
    obtain ⟨s, rfl⟩ := zeros e List.mem_cons_self
    have split : last? fixed (store ⟨s, .replicate n 0⟩ :: rest) b = _ :=
      last?_append [store ⟨s, .replicate n 0⟩] rest b
    rw [there, last?_store] at split
    -- A later fill counts, if there is one that reaches the byte.
    cases later : last? fixed rest b with
    | some last =>
      rw [later, Option.some_or] at split
      exact ih (fun e mem => zeros e (List.mem_cons_of_mem _ mem)) (later.trans split.symm)
    | none =>
      rw [later, Option.none_or] at split
      rcases Store.byte?_zeros_cases s b n with nothing | zero
      · rw [nothing] at split
        cases split
      · rw [zero] at split
        exact Option.some.inj split

/-- Bytes stored at the beginning of a span stay in it, if they are not too many. -/
theorem inside_store {bytes : List UInt8} {n : Nat} (fits : bytes.length ≤ n) :
    (store ⟨a, bytes⟩).Inside fixed a n := by
  intro s mem
  obtain rfl := List.mem_singleton.mp mem
  exact ⟨0, rfl, by rwa [Nat.zero_add]⟩

/-- An effect inside a part lies inside the whole. -/
theorem Inside.mono {effect : Effect} {i k n : Nat} (h : effect.Inside fixed (a + i) k)
    (le : i + k ≤ n) : effect.Inside fixed a n :=
  fun s mem => (h s mem).mono le

end Effect

/-- There is room for all that effects store. -/
def Memory.RoomFor (m : Memory) (fixed : FixedStores) (effects : List Effect) : Prop :=
  ∀ e ∈ effects, ∀ s ∈ e.stores fixed, m.Admits s.address s.bytes.length

/-- There is room for effects inside a span that admits stores. -/
theorem Memory.Admits.roomFor {m : Memory} {fixed : FixedStores} {effects : List Effect}
    {a : Address} {n : Nat} (room : m.Admits a n) (inside : ∀ e ∈ effects, e.Inside fixed a n) :
    m.RoomFor fixed effects :=
  fun e mem s stored => room.inside (inside e mem s stored)

/-! ### Running effects -/

/-- A machine comes out of another by effects: the calls are added, the last store to an address
    counts, and nothing else changes. -/
structure Machine.Undergoes (fixed : FixedStores) (effects : List Effect) (M M' : Machine) :
    Prop where
  calls : M'.calls = M.calls ++ effects.flatMap (·.calls)
  heapLog : M'.heapLog = M.heapLog
  shape : M.memory.SameShape M'.memory
  byte? : ∀ b, M'.memory.byte? b = (Effect.last? fixed effects b).or (M.memory.byte? b)

namespace Machine.Undergoes

variable {fixed : FixedStores} {first second : List Effect} {M M₁ M₂ : Machine}

/-- Without effects nothing changes. -/
theorem refl (M : Machine) : M.Undergoes fixed [] M :=
  ⟨(List.append_nil _).symm, rfl, .refl _, fun _ => rfl⟩

/-- Effects follow one another. -/
theorem trans (h : M.Undergoes fixed first M₁) (h' : M₁.Undergoes fixed second M₂) :
    M.Undergoes fixed (first ++ second) M₂ where
  calls := by rw [h'.calls, h.calls, List.flatMap_append, List.append_assoc]
  heapLog := h'.heapLog.trans h.heapLog
  shape := h.shape.trans h'.shape
  byte? := fun b => by rw [h'.byte?, h.byte?, Effect.last?_append, Option.or_assoc]

/-- There is room for what there was room for. -/
theorem admits (h : M.Undergoes fixed first M₁) {a : Address} {n : Nat}
    (room : M.memory.Admits a n) :
    M₁.memory.Admits a n := by
  rw [Memory.Admits, Memory.spans_of_size (h.shape.size _)]
  exact room

/-- Effects take no room away. -/
theorem roomFor (h : M.Undergoes fixed first M₁) (room : M.memory.RoomFor fixed second) :
    M₁.memory.RoomFor fixed second :=
  fun e mem s stored => h.admits (room e mem s stored)

end Machine.Undergoes

namespace Run

variable {fixed : FixedStores} {a : Address} {n : Nat} {M : Machine}

/-- If each operation of a list has its effects, then the whole list has them all. -/
theorem exists_forM_undergoes {α : Type} {items : List α} {f : α → Run Unit}
    (effects : α → List Effect) (room : M.memory.RoomFor fixed (items.flatMap effects))
    (each : ∀ x ∈ items, ∀ M : Machine, M.memory.RoomFor fixed (effects x) → ∃ M',
      f x M = .ok () M' ∧ M.Undergoes fixed (effects x) M') :
    ∃ M', items.forM f M = .ok () M' ∧ M.Undergoes fixed (items.flatMap effects) M' := by
  rw [List.forM_eq_forM]
  induction items generalizing M with
  | nil => exact ⟨M, rfl, .refl M⟩
  | cons x rest ih =>
    rw [List.flatMap_cons] at room
    obtain ⟨own, others⟩ := List.forall_mem_append.mp room
    obtain ⟨M₁, first, underwent⟩ := each x List.mem_cons_self M own
    obtain ⟨M₂, rest, underwent'⟩ :=
      ih (underwent.roomFor others) fun y mem => each y (List.mem_cons_of_mem _ mem)
    exact ⟨M₂, (forM_cons_of_ok first).trans rest, underwent.trans underwent'⟩

/-- Bytes that fit are stored. -/
theorem exists_writeBytes_undergoes {s : Store} (fits : M.memory.Admits s.address s.bytes.length) :
    ∃ M', writeBytes s.address s.bytes M = .ok () M' ∧ M.Undergoes fixed [.store s] M' := by
  refine ⟨_, writeBytes_of_fits fits, ?_, rfl, .of_write .., ?_⟩
  · rw [Machine.calls_withMemory]
    simp [Effect.calls]
  · intro b
    exact Memory.byte?_write_of_admits fits b

/-- To fill with zeros is to store zeros. -/
theorem fillZero_eq_writeBytes (a : Address) (n : Nat) :
    fillZero a n = writeBytes a (.replicate n 0) := by
  rw [writeBytes, List.length_replicate]
  rfl

/-- An initializer is called, and its bytes are stored. -/
theorem exists_call_undergoes {env : Environment} {entry : EntryPoint}
    (code : env.StoresFixedAt fixed entry) {procedure : Procedure}
    (fits : ∀ f ∈ fixed entry, M.memory.Admits (a + f.1) f.2.length) :
    ∃ M', (do let _ ← call env procedure entry (.scalar a) : Run Unit) M = .ok () M' ∧
      M.Undergoes fixed [.call procedure entry a] M' := by
  have after := code a M.memory fits
  refine ⟨_, bind_of_ok (call_apply ..), ?_, ?_, ?_, ?_⟩
  · rw [Machine.calls_withMemory]
    simp [Effect.calls, Event.call?]
  · simp [Event.heapUse?]
  · rw [Machine.memory_withMemory, after]
    exact .of_writeFields ..
  · intro b
    rw [Machine.memory_withMemory, after, Memory.byte?_writeFields fits]
    simp [Effect.last?, Effect.stores]

/-- A trace has no effect. -/
theorem exists_trace_undergoes (fixed : FixedStores) (env : Environment) (step : Trace)
    (M : Machine) :
    ∃ M', trace env step M = .ok () M' ∧ M.Undergoes fixed [] M' := by
  obtain ⟨M', traced, memory, heapLog, calls⟩ := exists_trace env step M
  refine ⟨M', traced, ?_, heapLog, ?_, ?_⟩
  · rw [calls, List.flatMap_nil, List.append_nil]
  · rw [memory]
    exact .refl _
  · intro b
    rw [memory, Effect.last?_nil, Option.none_or]

end Run

namespace Effect

variable {env : Environment} {fixed : FixedStores} {a : Address} {n : Nat} {M : Machine}

/-- Effects inside a span that admits stores happen. -/
theorem exists_forM (code : env.StoresFixed fixed) {effects : List Effect}
    (inside : ∀ e ∈ effects, e.Inside fixed a n) (room : M.memory.Admits a n) :
    ∃ M', effects.forM (run env) M = .ok () M' ∧ M.Undergoes fixed effects M' := by
  have each : ∀ e ∈ effects, ∀ M : Machine, M.memory.RoomFor fixed [e] →
      ∃ M', e.run env M = .ok () M' ∧ M.Undergoes fixed [e] M' := by
    intro e _ M fits
    have fits := fits e List.mem_cons_self
    cases e with
    | store s => exact Run.exists_writeBytes_undergoes (fits s List.mem_cons_self)
    | call procedure entry at' =>
      exact Run.exists_call_undergoes (code entry) fun f mem =>
        fits ⟨_, _⟩ (List.mem_map_of_mem mem)
  have fits := room.roomFor inside
  rw [← List.flatMap_singleton' effects] at fits
  obtain ⟨M', run, underwent⟩ := Run.exists_forM_undergoes (fun e => [e]) fits each
  rw [List.flatMap_singleton'] at underwent
  exact ⟨M', run, underwent⟩

end Effect

namespace DefaultStep

/-- The effects of a step. -/
def effects : DefaultStep → List Effect
  | copyImage ty image a => [.store ⟨a, image.take ty.size.toNat⟩]
  | callInitializer _ procedure entry a => [.call procedure entry a]
  | zeroFill ty a => [.store ⟨a, .replicate ty.size.toNat 0⟩]
  | enterComponents _ => []

/-- If a step calls an initializer, then the code does nothing to memory but store its fixed
    bytes. -/
def CallsFixed (env : Environment) (fixed : FixedStores) : DefaultStep → Prop
  | callInitializer _ _ entry _ => env.StoresFixedAt fixed entry
  | _ => True

variable {env : Environment} {fixed : FixedStores} {step : DefaultStep} {steps : List DefaultStep}
  {a : Address} {n : Nat} {M M' : Machine}

/-- A step has its effects. -/
theorem exists_run (code : step.CallsFixed env fixed) (room : M.memory.RoomFor fixed step.effects) :
    ∃ M', step.run env M = .ok () M' ∧ M.Undergoes fixed step.effects M' := by
  -- The trace of a step comes first, and its effect second.
  have traced {trace : Trace} {action : Run Unit} {e : Effect}
      (acts : ∀ M₁ : Machine, M₁.memory.RoomFor fixed [e] → ∃ M', action M₁ = .ok () M' ∧
        M₁.Undergoes fixed [e] M')
      (room : M.memory.RoomFor fixed [e]) :
      ∃ M', (do Run.trace env trace; action) M = .ok () M' ∧ M.Undergoes fixed [e] M' := by
    obtain ⟨M₁, first, silent⟩ := Run.exists_trace_undergoes fixed env trace M
    obtain ⟨M₂, second, underwent⟩ := acts M₁ (silent.roomFor room)
    refine ⟨M₂, ?_, silent.trans underwent⟩
    rw [Run.bind_of_ok first]
    exact second
  cases step with
  | copyImage ty image at' =>
    exact traced (fun M₁ room =>
      Run.exists_writeBytes_undergoes (room _ List.mem_cons_self _ List.mem_cons_self)) room
  | callInitializer ty procedure entry at' =>
    exact traced (fun M₁ room => Run.exists_call_undergoes code fun f mem =>
      room _ List.mem_cons_self ⟨_, _⟩ (List.mem_map_of_mem mem)) room
  | zeroFill ty at' =>
    refine traced (fun M₁ room => ?_) room
    rw [Run.fillZero_eq_writeBytes]
    exact Run.exists_writeBytes_undergoes (room _ List.mem_cons_self _ List.mem_cons_self)
  | enterComponents ty => exact Run.exists_trace_undergoes fixed env _ M

/-- Steps for whose effects there is room have these effects. -/
theorem exists_forM_undergoes (code : ∀ step ∈ steps, step.CallsFixed env fixed)
    (room : M.memory.RoomFor fixed (steps.flatMap effects)) :
    ∃ M', steps.forM (run env) M = .ok () M' ∧ M.Undergoes fixed (steps.flatMap effects) M' :=
  Run.exists_forM_undergoes effects room fun step mem _ room => exists_run (code step mem) room

/-- Steps whose effects lie inside a span that admits stores have these effects. -/
theorem exists_forM (code : env.StoresFixed fixed)
    (inside : ∀ e ∈ steps.flatMap effects, e.Inside fixed a n) (room : M.memory.Admits a n) :
    ∃ M', steps.forM (run env) M = .ok () M' ∧ M.Undergoes fixed (steps.flatMap effects) M' := by
  refine exists_forM_undergoes (fun step _ => ?_) (room.roomFor inside)
  cases step with
  | callInitializer ty procedure entry a => exact code entry
  | _ => trivial

/-! ### Events -/

/-- The events of a step. -/
def events (env : Environment) : DefaultStep → List Event
  | copyImage ty _ _ => env.traceEvents (.init ty .image)
  | callInitializer ty p _ a =>
    env.traceEvents (.init ty .procedure) ++ [.call p env.context (.scalar a)]
  | zeroFill ty _ => env.traceEvents (.init ty .zeroFill)
  | enterComponents ty => env.traceEvents (.init ty .components)

/-- The events of a step show the calls that are among its effects. -/
@[simp] theorem filterMap_call?_events (env : Environment) (step : DefaultStep) :
    (step.events env).filterMap Event.call? = step.effects.flatMap (·.calls) := by
  cases step <;> simp [events, effects, Effect.calls, Event.call?]

/-- Steps leave the heap alone. -/
@[simp] theorem filterMap_heapUse?_events (env : Environment) (step : DefaultStep) :
    (step.events env).filterMap Event.heapUse? = [] := by
  cases step <;> simp [events, Event.heapUse?]

/-- A step that comes to an end has recorded its events. -/
theorem recorded_of_run (ended : step.run env M = .ok () M') :
    M' = (M.recordAll (step.events env)).withMemory M'.memory := by
  cases step with
  | copyImage ty image a | zeroFill ty a =>
    rw [run, Run.bind_of_ok (Run.trace_apply ..)] at ended
    exact Run.eq_of_store ended
  | callInitializer ty p entry a =>
    rw [run, Run.bind_of_ok (Run.trace_apply ..), Run.bind_of_ok (Run.call_apply ..),
      Machine.record_eq_recordAll, ← Machine.recordAll_append] at ended
    cases ended
    rfl
  | enterComponents ty =>
    rw [run, Run.trace_apply] at ended
    cases ended
    rfl

/-- Steps that come to an end have recorded their events. -/
theorem recorded_of_forM (ended : forM steps (run env) M = .ok () M') :
    M' = (M.recordAll (steps.flatMap (·.events env))).withMemory M'.memory := by
  induction steps generalizing M with
  | nil =>
    cases ended
    rw [List.flatMap_nil, Machine.recordAll_nil]
    rfl
  | cons step rest ih =>
    rw [List.forM_cons] at ended
    obtain ⟨_, M₁, first, others⟩ := Run.exists_of_bind_eq_ok ended
    rw [ih others, recorded_of_run first, List.flatMap_cons, Machine.recordAll_append]
    rfl

/-- Steps call what their effects say, if they come to an end. -/
theorem calls_of_forM (ended : forM steps (run env) M = .ok () M') :
    M'.calls = M.calls ++ (steps.flatMap effects).flatMap (·.calls) := by
  rw [recorded_of_forM ended]
  simp [List.filterMap_flatMap, List.flatMap_assoc]

/-- Steps are nothing to the allocator. -/
theorem heapLog_of_forM (ended : forM steps (run env) M = .ok () M') : M'.heapLog = M.heapLog := by
  rw [recorded_of_forM ended]
  simp [List.filterMap_flatMap]

end DefaultStep

end DerivedTypes
