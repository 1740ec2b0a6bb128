import DerivedTypes.Proofs.DefaultValue.Effects
import DerivedTypes.Proofs.Memory.Fields
import DerivedTypes.Proofs.Session.Accounts

namespace DerivedTypes

/-!
# STAT and ERRMSG variables

A statement ends with a STAT code, and one that fails has a message for its ERRMSG variable. The
message is cut off or padded with blanks where the variable ends; a variable that is absent,
unallocated or not of default characters gets none.

* `StatError.messageByte`: a message with blanks behind it, which have no end;
* `Outcome.Reports`: the end of a statement puts a message into storage;
* `Outcome.exists_stat`: the code, and memory with the message in this storage and as it was
  elsewhere;
* `Command.stat_exact`: the same for variables in a session, whose descriptors stay as they are.
-/

/-! ### Codes and messages -/

/-- The STAT code of a statement. -/
def Outcome.code : Outcome → Nat
  | .ok () => 0
  | .error e => e.code

/-- No error has the code of success. -/
theorem StatError.code_ne_zero (e : StatError) : e.code ≠ 0 := by
  cases e <;> simp [code]

/-- The code is zero for success only. -/
theorem Outcome.code_eq_zero_iff {outcome : Outcome} : outcome.code = 0 ↔ outcome = .ok () := by
  rcases outcome with e | ⟨⟩
  · simp [code, e.code_ne_zero]
  · simp [code]

/-- A byte of the message of an error, or of the blanks behind the message. -/
def StatError.messageByte (e : StatError) (i : Nat) : UInt8 :=
  (e.message.toUTF8.data.toList[i]?).getD 0x20

/-- A padded message is as long as the variable. -/
@[simp] theorem length_paddedMessage (message : String) (length : Nat) :
    (paddedMessage message length).length = length := by
  simp only [paddedMessage, List.length_append, List.length_take, List.length_replicate]
  omega

/-- A variable of any length holds the first bytes of the message and of the blanks behind it. -/
theorem getElem?_paddedMessage (e : StatError) {i length : Nat} (lt : i < length) :
    (paddedMessage e.message length)[i]? = some (e.messageByte i) := by
  unfold paddedMessage StatError.messageByte
  generalize e.message.toUTF8.data.toList = bytes
  by_cases inside : i < bytes.length
  · rw [List.getElem?_append_left (by simp; omega), List.getElem?_take_of_lt lt]
    simp [inside]
  · -- Behind the message there are blanks only.
    rw [List.getElem?_append_right (by simp; omega), List.getElem?_replicate,
      if_pos (by simp; omega)]
    simp [inside]

/-! ### Reports -/

/-- A statement that ends in this way writes the message of an error to the `length` bytes at an
    address: it failed, and its ERRMSG variable is allocated there and consists of default
    characters. -/
inductive Outcome.Reports :
    Outcome → Option Descriptor → StatError → Address → (length : Nat) → Prop
  | intro {e : StatError} {d : Descriptor} {base : Address} (allocated : d.base = some base)
      (characters : d.typeCode = .character 1) :
      Reports (.error e) (some d) e base d.elementSize.toNat

namespace Outcome

variable {outcome : Outcome} {errmsg : Option Descriptor} {M : Machine}

/-- The message goes to the variable. -/
theorem Reports.stat_eq {e : StatError} {base : Address} {length : Nat}
    (reports : outcome.Reports errmsg e base length) (writable : M.memory.Admits base length) :
    outcome.stat errmsg M = .ok outcome.code
      (M.withMemory (M.memory.write base (paddedMessage e.message length))) := by
  cases reports with
  | @intro _ d _ allocated characters =>
    have takes : (d.typeCode.isCharacter && d.typeCode.kind == 1) = true := by
      rw [characters]
      rfl
    have written : e.writeMessage (some d) M =
        .ok ()
          (M.withMemory (M.memory.write base (paddedMessage e.message d.elementSize.toNat))) := by
      simp only [StatError.writeMessage, Option.bind_some, allocated,
        Option.map_some, takes, if_true]
      exact Run.store_of_fits writable
    exact Run.bind_of_ok written

/-- In all other cases memory stays as it is. -/
theorem exists_stat_of_silent (silent : ∀ e base length, ¬ outcome.Reports errmsg e base length) :
    ∃ M', outcome.stat errmsg M = .ok outcome.code M' ∧ M'.memory = M.memory := by
  rcases outcome with e | ⟨⟩
  · -- The variable is absent, unallocated, or of another type.
    have quiet : ∃ M', e.writeMessage errmsg M = .ok () M' ∧ M'.memory = M.memory := by
      rcases errmsg with _ | d
      · exact ⟨M, rfl, rfl⟩
      · cases allocated : d.base with
        | none =>
          simp only [StatError.writeMessage, Option.bind_some, allocated, Option.map_none]
          exact ⟨M, rfl, rfl⟩
        | some base =>
          have other : (d.typeCode.isCharacter && d.typeCode.kind == 1) = false := by
            refine Bool.eq_false_iff.mpr fun takes => ?_
            obtain ⟨character, one⟩ := Bool.and_eq_true_iff.mp takes
            have characters : d.typeCode = .character 1 := by
              rw [TypeCode.character, ← eq_of_beq character, ← eq_of_beq one]
            exact silent e base _ (.intro allocated characters)
          simp only [StatError.writeMessage, Option.bind_some, allocated, Option.map_some, other]
          exact ⟨_, Run.log_apply .., rfl⟩
    obtain ⟨M', ended, same⟩ := quiet
    exact ⟨M', Run.bind_of_ok ended, same⟩
  · exact ⟨M, rfl, rfl⟩

/-- A statement that reports to one place reports nothing else. -/
theorem Reports.unique {e e' : StatError} {base base' : Address} {n n' : Nat}
    (h : outcome.Reports errmsg e base n) (h' : outcome.Reports errmsg e' base' n') :
    e' = e ∧ base' = base ∧ n' = n := by
  cases h with
  | intro allocated _ =>
    cases h' with
    | intro allocated' _ => exact ⟨rfl, Option.some.inj (allocated'.symm.trans allocated), rfl⟩

/-- A statement ends with its code. The message of an error is then where it is reported to, and
    memory is as it was everywhere else. -/
theorem exists_stat
    (writable : ∀ e base n, outcome.Reports errmsg e base n → M.memory.Admits base n) :
    ∃ M', outcome.stat errmsg M = .ok outcome.code M' ∧ M.memory.SameShape M'.memory ∧
      (∀ e base n, outcome.Reports errmsg e base n → ∀ i < n,
        M'.memory.byte? (base + i) = some (e.messageByte i)) ∧
      ∀ x : Address, (∀ e base n, outcome.Reports errmsg e base n → ¬ x.InSpan base n) →
        M'.memory.byte? x = M.memory.byte? x := by
  by_cases reports : ∃ e base n, outcome.Reports errmsg e base n
  · obtain ⟨e, base, n, reports⟩ := reports
    have admits : M.memory.Admits base (paddedMessage e.message n).length := by
      simpa using writable e base n reports
    have after := Memory.byte?_write_of_admits (s := ⟨base, paddedMessage e.message n⟩) admits
    refine ⟨_, reports.stat_eq (writable e base n reports), .of_write .., ?_, fun x outside => ?_⟩
    · intro e' base' n' reports' i lt
      obtain ⟨rfl, rfl, rfl⟩ := reports.unique reports'
      have here : Store.byte? ⟨base', paddedMessage e'.message n'⟩ (base' + i) =
          some (e'.messageByte i) := by
        simp [Store.byte?, getElem?_paddedMessage e' lt]
      exact (after _).trans (by rw [here, Option.some_or])
    · have elsewhere : Store.byte? ⟨base, paddedMessage e.message n⟩ x = none :=
        Store.byte?_eq_none_iff.mpr (by simpa [Store.Reaches] using outside e base n reports)
      exact (after _).trans (by rw [elsewhere, Option.none_or])
  · have silent : ∀ e base n, ¬ outcome.Reports errmsg e base n :=
      fun e base n h => reports ⟨e, base, n, h⟩
    obtain ⟨M', ended, same⟩ := exists_stat_of_silent (M := M) silent
    refine ⟨M', ended, same ▸ .refl _, fun e base n h => absurd h (silent e base n), fun x _ => ?_⟩
    rw [same]

end Outcome

/-! ### Variables in a session -/

/-- The bytes of a place are none of those that a message goes to. -/
def Place.ApartFromReport (p : Place) (outcome : Outcome) (errmsg : Option Descriptor) : Prop :=
  ∀ e base n, outcome.Reports errmsg e base n → ∀ x, p.Covers x → ¬ x.InSpan base n

/-- The STAT code of a statement is zero if it did well, and the code of its error if not. If it
    failed and its ERRMSG variable is allocated and of default characters, the bytes of this
    variable become those of the message and of blanks without end, as far as they go. No other byte
    changes, and no byte at all in other cases. Local descriptors stay as they are, that of the
    variable included, and so do descriptors in memory that are no part of the storage of the
    variable. -/
theorem Command.stat_exact {env : Environment} {s : Session} {errmsg : Option Place}
    {found : Option Descriptor} (outcome : Outcome)
    (there : Dialogue.readOptional errmsg s = .ok found s)
    (writable : ∀ e base n, outcome.Reports found e base n → s.machine.memory.Admits base n) :
    ∃ code s', (Command.stat outcome errmsg).run env s = .ok (.code code) s' ∧
      (code = 0 ↔ outcome = .ok ()) ∧ (∀ e, outcome = .error e → code = e.code) ∧
      (∀ e base n, outcome.Reports found e base n →
        ∀ i < n, s'.machine.memory.byte? (base + i) = some (e.messageByte i)) ∧
      (∀ x : Address, (∀ e base n, outcome.Reports found e base n → ¬ x.InSpan base n) →
        s'.machine.memory.byte? x = s.machine.memory.byte? x) ∧
      s.machine.memory.SameShape s'.machine.memory ∧
      ∀ p d, p.ApartFromReport outcome found → s.at? p = some d → s'.at? p = some d := by
  obtain ⟨M', ended, shape, message, frame⟩ := Outcome.exists_stat writable
  have ran : (Command.stat outcome errmsg).run env s = .ok (.code outcome.code) ⟨M', s.locals⟩ :=
    (Dialogue.bind_of_ok there).trans (Dialogue.bind_of_ok (Dialogue.onMachine_of_ok ended))
  refine ⟨outcome.code, _, ran, Outcome.code_eq_zero_iff, ?_, message, frame, shape,
    fun p d apart held => ?_⟩
  · rintro e rfl
    rfl
  · cases p with
    | localVariable index => exact held
    | stored a =>
      have room := Memory.spans_of_descriptor? held
      have agrees : s.machine.memory.Agrees M'.memory a descriptorBytes :=
        { placement := shape.placement
          tables := shape.tables
          spans := Memory.spans_of_size (shape.size a.region) _
          byte? := fun x inside => frame x fun e base n reports => apart e base n reports x inside }
      exact (agrees.descriptor? room).trans held

/-! ### A short variable -/

namespace ShortMessage

/-- An ERRMSG variable of six characters, the second byte of a buffer and those behind it. -/
def errmsg : Descriptor :=
  { Descriptor.zeroed with base := some ⟨.buffer 0, 1⟩, elementSize := 6, typeCode := .character 1 }

/-- The variable, and a buffer of eight bytes. -/
def session : Session where
  machine := ⟨.ofBuffers default #[] [.replicate 8 0x23], #[]⟩
  locals := [errmsg]

end ShortMessage

open ShortMessage in
/-- A short variable gets the beginning of a message, and the bytes around it stay. -/
theorem Command.stat_short_message :
    ∃ s', (Command.stat (.error .generic) (some (.localVariable 0))).run
        (.withoutHeap .host false fun _ a m => (a, m))
        session = .ok (.code 1) s' ∧
      s'.machine.memory.byte? ⟨.buffer 0, 0⟩ = some 0x23 ∧
      s'.machine.memory.byte? ⟨.buffer 0, 1⟩ = some 0x67 ∧
      s'.machine.memory.byte? ⟨.buffer 0, 6⟩ = some 0x69 ∧
      s'.machine.memory.byte? ⟨.buffer 0, 7⟩ = some 0x23 ∧
      s'.at? (.localVariable 0) = some ShortMessage.errmsg := by
  have reports : Outcome.Reports (.error .generic) (some ShortMessage.errmsg) .generic
      ⟨.buffer 0, 1⟩ 6 := .intro rfl rfl
  have there : Dialogue.readOptional (some (.localVariable 0)) session =
      .ok (some ShortMessage.errmsg) session := rfl
  have writable (e : StatError) (base : Address) (n : Nat)
      (other : Outcome.Reports (.error .generic) (some ShortMessage.errmsg) e base n) :
      session.machine.memory.Admits base n := by
    obtain ⟨rfl, rfl, rfl⟩ := reports.unique other
    exact .inr (by decide)
  obtain ⟨code, s', ran, _, failed, message, frame, _, held⟩ :=
    Command.stat_exact (.error .generic) there writable
  obtain rfl : code = 1 := failed _ rfl
  have outside (x : Address) (far : ¬ x.InSpan ⟨.buffer 0, 1⟩ 6) :
      s'.machine.memory.byte? x = session.machine.memory.byte? x := frame x fun e base n other => by
    obtain ⟨rfl, rfl, rfl⟩ := reports.unique other
    exact far
  refine ⟨s', ran, ?_, ?_, ?_, ?_, held _ _ nofun rfl⟩
  · exact (outside ⟨.buffer 0, 0⟩ fun inside => absurd inside.2.1 (by decide)).trans (by decide)
  · exact (message _ _ _ reports 0 (by decide)).trans (by decide)
  · exact (message _ _ _ reports 5 (by decide)).trans (by decide)
  · exact (outside ⟨.buffer 0, 7⟩ fun inside => absurd inside.2.2 (by decide)).trans (by decide)

end DerivedTypes
