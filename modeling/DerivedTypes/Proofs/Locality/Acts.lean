import DerivedTypes.Proofs.Locality.Location
import DerivedTypes.Proofs.Machine.Outcome

namespace DerivedTypes

/-!
# Operations that look at a part of memory

`Run.Acts R W m x es m'`: in every memory that is the same as `m` on `R`, the operation `x` ends
well, records the events `es`, changes memory at places of `W` only, and leaves memory that is the
same as `m'` on `R`. So nothing outside of `R` has a part in what it does.

* `Acts.bind`, `Acts.after_read`, `Acts.exists_forM`: operations one after the other;
* `Acts.mono`: an operation acts on more of memory as well;
* `Acts.trace`, `Acts.writeBytes`: single operations;
* `ActsOn`: an operation acts on a zone and on heap blocks;
* `Acts.commute`: operations that change nothing that the other one looks at may change places.
-/

open Location

namespace Run

/-- What an operation does depends on `R` and changes `W`. Applied to `m`, it records `es` and
    leaves `m'`. -/
structure Acts (R W : Set Location) (m : Memory) (x : Run Unit) (es : List Event) (m' : Memory) :
    Prop where
  changes : m.Changes W m'
  run : ∀ M : Machine, m.SameOn R M.memory → ∃ n,
    x M = .ok () ((M.recordAll es).withMemory n) ∧ M.memory.Changes W n ∧ m'.SameOn R n

namespace Acts

variable {α : Type} {R R' W W' : Set Location} {m m₁ m₂ : Memory} {x y : Run Unit}
  {es es' : List Event}

/-! ### Operations one after the other -/

/-- An operation that leaves memory as it is. -/
theorem of_events (ran : ∀ M : Machine, m.SameOn R M.memory → x M = .ok () (M.recordAll es)) :
    Acts R W m x es m where
  changes := .refl m W
  run := fun M same => ⟨M.memory, ran M same, .refl M.memory W, same⟩

/-- Doing nothing. -/
theorem pure (R W : Set Location) (m : Memory) : Acts R W m (Pure.pure ()) [] m :=
  of_events fun M _ => by
    rw [Machine.recordAll_nil]
    rfl

/-- A trace only records events. -/
theorem trace (R W : Set Location) (m : Memory) (env : Environment) (step : Trace) :
    Acts R W m (Run.trace env step) (env.traceEvents step) m :=
  of_events fun M _ => trace_apply env step M

/-- One operation after the other. The second one depends on no more than the first one. -/
theorem bind (h : Acts R W m x es m₁) (h' : Acts R W m₁ y es' m₂) :
    Acts R W m (x >>= fun _ => y) (es ++ es') m₂ where
  changes := h.changes.trans h'.changes
  run := by
    intro M same
    obtain ⟨n₁, ran, changes, same₁⟩ := h.run M same
    obtain ⟨n₂, ran', changes', same₂⟩ := h'.run ((M.recordAll es).withMemory n₁) same₁
    refine ⟨n₂, ?_, changes.trans changes', same₂⟩
    rw [bind_of_ok ran, ran', Machine.recordAll_append]
    rfl

/-- An operation that goes on with what it has read. -/
theorem after_read {read : Run α} {f : α → Run Unit} {a : α}
    (reads : ∀ M : Machine, m.SameOn R M.memory → read M = .ok a M) (h : Acts R W m (f a) es m₁) :
    Acts R W m (read >>= f) es m₁ where
  changes := h.changes
  run := by
    intro M same
    rw [bind_of_ok (reads M same)]
    exact h.run M same

/-- An operation acts on more of memory as well. -/
theorem mono (h : Acts R W m x es m₁) (subR : R ⊆ R') (subW : W ⊆ W') (inside : W ⊆ R) :
    Acts R' W' m x es m₁ where
  changes := h.changes.mono subW
  run := by
    intro M same
    obtain ⟨n, ran, changes, after⟩ := h.run M (same.mono subR)
    -- The operation leaves alone what is in `R'` but not in `R`.
    exact ⟨n, ran, changes.mono subW, same.after after h.changes changes inside⟩

/-- Operations one after the other, as long as each of them finds what it needs. -/
theorem exists_forM {items : List α} {f : α → Run Unit} {events : α → List Event}
    {I : Memory → Prop} (kept : ∀ m m', I m → m.Changes W m' → I m')
    (each : ∀ item ∈ items, ∀ m, I m → ∃ m', Acts R W m (f item) (events item) m') {m : Memory}
    (fine : I m) :
    ∃ m', Acts R W m (items.forM f) (items.flatMap events) m' := by
  induction items generalizing m with
  | nil => exact ⟨m, pure R W m⟩
  | cons item rest ih =>
    obtain ⟨m₁, first⟩ := each item List.mem_cons_self m fine
    obtain ⟨m₂, others⟩ :=
      ih (fun item mem => each item (List.mem_cons_of_mem _ mem)) (kept m m₁ fine first.changes)
    refine ⟨m₂, ?_⟩
    rw [List.forM_eq_forM, List.forM_cons]
    exact first.bind others

/-! ### Single operations -/

variable {a : Address}

/-- A store of bytes depends on there being room, and changes these bytes. -/
theorem writeBytes {bytes : List UInt8} (known : .extent a.region ∈ R)
    (fits : m.Admits a bytes.length) :
    Acts R (Location.span a bytes.length) m (Run.writeBytes a bytes) [] (m.write a bytes) where
  changes := m.changes_write fits
  run := by
    intro M same
    have fits' := same.admits known fits
    refine ⟨M.memory.write a bytes, ?_, Memory.changes_write fits', same.write known fits⟩
    rw [writeBytes_of_fits fits', Machine.recordAll_nil]

/-! ### Changing places -/

/-- Two operations that change nothing that the other one looks at leave the same memory in either
    order, and each of them records the same events. -/
theorem commute {R₁ W₁ R₂ W₂ : Set Location} {M : Machine} {es₁ es₂ : List Event}
    (h₁ : Acts R₁ W₁ M.memory x es₁ m₁) (h₂ : Acts R₂ W₂ M.memory y es₂ m₂) (inside₁ : W₁ ⊆ R₁)
    (inside₂ : W₂ ⊆ R₂) (apart₁ : Disjoint R₁ W₂) (apart₂ : Disjoint R₂ W₁) :
    ∃ n₁ n₂ n, x M = .ok () ((M.recordAll es₁).withMemory n₁) ∧
      y ((M.recordAll es₁).withMemory n₁) = .ok () ((M.recordAll (es₁ ++ es₂)).withMemory n) ∧
      y M = .ok () ((M.recordAll es₂).withMemory n₂) ∧
      x ((M.recordAll es₂).withMemory n₂) = .ok () ((M.recordAll (es₂ ++ es₁)).withMemory n) := by
  obtain ⟨n₁, ran₁, changes₁, same₁⟩ := h₁.run M (.refl ..)
  obtain ⟨n₂, ran₂, changes₂, same₂⟩ := h₂.run M (.refl ..)
  obtain ⟨n₁₂, ran₁₂, changes₁₂, same₁₂⟩ :=
    h₂.run ((M.recordAll es₁).withMemory n₁) (changes₁.sameOn apart₂)
  obtain ⟨n₂₁, ran₂₁, changes₂₁, same₂₁⟩ :=
    h₁.run ((M.recordAll es₂).withMemory n₂) (changes₂.sameOn apart₁)
  -- Each order has changed both parts. One is left by the operation itself, and the other one
  -- changes nothing there.
  have whole : M.memory.Changes (W₁ ∪ W₂) n₁₂ := changes₁.trans_union changes₁₂
  have whole' : M.memory.Changes (W₁ ∪ W₂) n₂₁ := by
    rw [Set.union_comm]
    exact changes₂.trans_union changes₂₁
  have first : n₁₂.SameOn R₁ n₂₁ := ((changes₁₂.sameOn apart₁).symm.trans same₁.symm).trans same₂₁
  have second : n₁₂.SameOn R₂ n₂₁ := same₁₂.symm.trans (same₂.trans (changes₂₁.sameOn apart₂))
  have same : n₁₂.SameOn (W₁ ∪ W₂) n₂₁ :=
    ⟨first.placement, first.tables, fun l mem =>
      mem.elim (fun here => first.sameAt l (inside₁ here))
      fun here => second.sameAt l (inside₂ here)⟩
  obtain rfl := whole.eq_of_sameOn whole' same
  refine ⟨n₁, n₂, n₂₁, ran₁, ?_, ran₂, ?_⟩
  · rw [ran₁₂, Machine.recordAll_append]
    rfl
  · rw [ran₂₁, Machine.recordAll_append]
    rfl

end Acts

/-! ### Zones with blocks -/

/-- What an operation does depends on a zone and on some heap blocks, and changes nothing else. -/
def ActsOn (z : Zone) (blocks : List Nat) (m : Memory) (x : Run Unit) (es : List Event)
    (m' : Memory) : Prop :=
  Acts (z.readable ∪ inBlocks blocks) (z.span ∪ inBlocks blocks) m x es m'

variable {z c : Zone} {blocks blocks' : List Nat} {m m₁ m₂ : Memory} {x y : Run Unit}
  {es es' : List Event}

/-- What depends on a zone alone depends on the zone with blocks. -/
theorem Acts.on {W : Set Location} (h : Acts z.readable W m x es m₁) (inside : W ⊆ z.span) :
    ActsOn z blocks m x es m₁ :=
  h.mono Set.subset_union_left (inside.trans Set.subset_union_left)
    (inside.trans z.span_subset_readable)

namespace ActsOn

/-- One operation after the other, on the same zone and blocks. -/
theorem bind (h : ActsOn z blocks m x es m₁) (h' : ActsOn z blocks m₁ y es' m₂) :
    ActsOn z blocks m (x >>= fun _ => y) (es ++ es') m₂ :=
  Acts.bind h h'

/-- An operation may look at all that it may change. -/
theorem written_subset_read (z : Zone) (blocks : List Nat) :
    z.span ∪ inBlocks blocks ⊆ z.readable ∪ inBlocks blocks :=
  Set.union_subset_union_left _ z.span_subset_readable

/-- An operation on a part is one on the whole. -/
theorem within (h : ActsOn z blocks m x es m₁) (inside : z.Within c)
    (sub : ∀ b ∈ blocks, b ∈ blocks') :
    ActsOn c blocks' m x es m₁ :=
  Acts.mono h (Set.union_subset_union inside.readable (inBlocks_mono sub))
    (Set.union_subset_union inside.span (inBlocks_mono sub)) (written_subset_read z blocks)

/-- An operation on a zone in a block is one on this block. -/
theorem of_block {block : Nat} (h : ActsOn z blocks m x es m₁)
    (inBlock : z.address.region = .heap block) (mem : block ∈ blocks')
    (sub : ∀ b ∈ blocks, b ∈ blocks') : ActsOn c blocks' m x es m₁ := by
  have zone : z.readable ⊆ inBlocks blocks' := fun l here =>
    ⟨block, mem, (Zone.region_of_mem_readable here).trans inBlock⟩
  refine Acts.mono h ?_ ?_ (written_subset_read z blocks)
  · exact Set.subset_union_of_subset_right (Set.union_subset zone (inBlocks_mono sub)) _
  · exact Set.subset_union_of_subset_right
      (Set.union_subset (z.span_subset_readable.trans zone) (inBlocks_mono sub)) _

/-- Operations on zones and blocks that have nothing in common may change places: each of them
    records the same events in either order, and they leave the same memory. -/
theorem commute {M : Machine} (h : ActsOn z blocks M.memory x es m₁)
    (h' : ActsOn c blocks' M.memory y es' m₂) (independent : z.Independent blocks c blocks') :
    ∃ n₁ n₂ n, x M = .ok () ((M.recordAll es).withMemory n₁) ∧
      y ((M.recordAll es).withMemory n₁) = .ok () ((M.recordAll (es ++ es')).withMemory n) ∧
      y M = .ok () ((M.recordAll es').withMemory n₂) ∧
      x ((M.recordAll es').withMemory n₂) = .ok () ((M.recordAll (es' ++ es)).withMemory n) :=
  Acts.commute h h' (written_subset_read z blocks) (written_subset_read c blocks')
    independent.disjoint
    independent.symm.disjoint

end ActsOn

end Run

end DerivedTypes
