import DerivedTypes.Proofs.Buffer.TwosComplement

namespace DerivedTypes

/-!
# Buffers as stores of bytes

A buffer shows its bytes and nothing of the blocks in which it keeps them. Whatever was stored in it
before, and wherever, its bytes are those that were stored last, and reading takes the bytes of an
integer as they are.

* `BufferStore`: one store, of an integer or of bytes. `AlignedBuffer.after` is the buffer after
  several of them, some of which may not fit;
* `lastByte?`: the byte that was stored last at a position;
* `AlignedBuffer.getElem?_bytes_after`: the bytes after stores, by induction over these;
* `AlignedBuffer.IsByteStore`: what a buffer with given bytes does next;
* `AlignedBuffer.faithful_after`: after any stores a new buffer is a store of the bytes that were
  stored last.
-/

/-! ### Stores -/

/-- A store into a buffer. -/
inductive BufferStore where
  | integer (type : IntegerType) (offset : Nat) (value : Int)
  | bytes (offset : Nat) (contents : List UInt8)
deriving DecidableEq, Repr

namespace BufferStore

/-- Where the store begins. -/
def offset : BufferStore → Nat
  | .integer _ offset _ => offset
  | .bytes offset _ => offset

/-- The bytes that are stored. -/
def stored : BufferStore → List UInt8
  | .integer type _ value => type.encode value
  | .bytes _ contents => contents

/-- The buffer after the store, if the store fits. -/
def run? (b : AlignedBuffer) : BufferStore → Option AlignedBuffer
  | .integer type offset value => b.write? type offset value
  | .bytes offset contents => b.put? offset contents

/-- A store fits into a buffer of so many bytes. -/
def Fits (s : BufferStore) (length : Nat) : Prop :=
  s.offset + s.stored.length ≤ length

instance (s : BufferStore) (length : Nat) : Decidable (s.Fits length) :=
  inferInstanceAs (Decidable (_ ≤ _))

/-- The byte that a store leaves at a position of a buffer, if it fits and reaches that far. -/
def byte? (s : BufferStore) (length i : Nat) : Option UInt8 :=
  if s.Fits length ∧ s.offset ≤ i then s.stored[i - s.offset]? else none

/-- A store puts its bytes at its offset. -/
theorem run?_eq_put? (s : BufferStore) (b : AlignedBuffer) :
    s.run? b = b.put? s.offset s.stored := by
  cases s <;> rfl

end BufferStore

/-- The byte that was stored last at a position of a buffer of `length` bytes. -/
def lastByte? (length : Nat) : List BufferStore → Nat → Option UInt8
  | [], _ => none
  | s :: later, i => (lastByte? length later i).or (s.byte? length i)

namespace AlignedBuffer

/-- The buffer after stores, one after the other. A store that does not fit leaves it alone. -/
def after (b : AlignedBuffer) (stores : List BufferStore) : AlignedBuffer :=
  stores.foldl (fun b s => (s.run? b).getD b) b

/-- Stores are done one after the other. -/
theorem after_cons (b : AlignedBuffer) (s : BufferStore) (later : List BufferStore) :
    b.after (s :: later) = ((s.run? b).getD b).after later := rfl

variable {b b' : AlignedBuffer} {s : BufferStore}

/-! ### One store -/

/-- The bytes of a buffer are those of its storage up to its length. -/
theorem getElem?_bytes (b : AlignedBuffer) (i : Nat) :
    b.bytes[i]? = if i < b.length then b.storage[i]? else none := by
  rw [bytes, List.getElem?_take]

/-- A store fails exactly if it would go on behind the end. -/
theorem run?_eq_none_iff : s.run? b = none ↔ b.length < s.offset + s.stored.length := by
  rw [BufferStore.run?_eq_put?, put?]
  split <;> simp <;> omega

/-- A store that fits succeeds. It changes the bytes from its offset on, as many as it stores, and
    leaves the length and all the other storage as they are. -/
theorem exists_run? (fits : s.Fits b.length) :
    ∃ b', s.run? b = some b' ∧ b'.length = b.length ∧ b'.storage.length = b.storage.length ∧
      ∀ i, b'.storage[i]? =
        if s.offset ≤ i ∧ i < s.offset + s.stored.length then s.stored[i - s.offset]?
        else b.storage[i]? := by
  have room : s.offset + s.stored.length ≤ b.storage.length := Nat.le_trans fits b.length_le
  rw [BufferStore.run?_eq_put?, put?,
    dif_pos (show s.offset + s.stored.length ≤ b.length from fits)]
  exact ⟨_, rfl, rfl, length_splice room, getElem?_splice room⟩

/-- A store that is refused leaves the buffer alone. -/
theorem after_of_refused (refused : s.run? b = none) : b.after [s] = b := by
  rw [after_cons, refused]
  rfl

/-- A step of a run: length and storage keep their sizes, and each byte is the one that was stored,
    or as before. -/
theorem after_singleton (b : AlignedBuffer) (s : BufferStore) :
    (b.after [s]).length = b.length ∧ (b.after [s]).storage.length = b.storage.length ∧
      ∀ i, (b.after [s]).bytes[i]? = (s.byte? b.length i).or b.bytes[i]? := by
  by_cases fits : s.Fits b.length
  · obtain ⟨b', ran, length, storage, bytes⟩ := exists_run? fits
    have same : b.after [s] = b' := by rw [after_cons, ran]; rfl
    refine ⟨same ▸ length, same ▸ storage, fun i => ?_⟩
    have inside : s.offset + s.stored.length ≤ b.length := fits
    rw [same, getElem?_bytes, getElem?_bytes, length, bytes, BufferStore.byte?]
    by_cases reached : s.offset ≤ i ∧ i < s.offset + s.stored.length
    · -- The store lies within the length, so what it stores is seen.
      rw [if_pos reached, if_pos (And.intro fits reached.1), if_pos (show i < b.length by omega),
        List.getElem?_eq_getElem (show i - s.offset < s.stored.length by omega)]
      rfl
    · have untouched : (if s.Fits b.length ∧ s.offset ≤ i then s.stored[i - s.offset]? else none) =
        none := by
        split
        · exact List.getElem?_eq_none (by omega)
        · rfl
      rw [if_neg reached, untouched, Option.none_or]
  · have refused : s.run? b = none := run?_eq_none_iff.mpr (Nat.lt_of_not_le fits)
    have same := after_of_refused refused
    refine ⟨by rw [same], by rw [same], fun i => ?_⟩
    rw [same, BufferStore.byte?, if_neg fun h => fits h.1, Option.none_or]

/-! ### Several stores -/

/-- A run keeps the sizes of length and storage. -/
theorem length_after (b : AlignedBuffer) (stores : List BufferStore) :
    (b.after stores).length = b.length ∧ (b.after stores).storage.length = b.storage.length := by
  induction stores generalizing b with
  | nil => exact ⟨rfl, rfl⟩
  | cons s later ih =>
    obtain ⟨length, storage, _⟩ := b.after_singleton s
    obtain ⟨length', storage'⟩ := ih (b.after [s])
    exact ⟨length'.trans length, storage'.trans storage⟩

/-- After a run, the bytes are those that were stored last, or as before. -/
theorem getElem?_bytes_after (b : AlignedBuffer) (stores : List BufferStore) (i : Nat) :
    (b.after stores).bytes[i]? = (lastByte? b.length stores i).or b.bytes[i]? := by
  induction stores generalizing b with
  | nil => rfl
  | cons s later ih =>
    obtain ⟨length, _, bytes⟩ := b.after_singleton s
    -- What is stored later hides what the first store left.
    have next : b.after (s :: later) = (b.after [s]).after later := rfl
    rw [next, ih, length, bytes, lastByte?, Option.or_assoc]

/-! ### Single accesses -/

/-- Reading decodes the bytes from the offset on. -/
theorem read?_of_fits {type : IntegerType} {offset : Nat} (fits : offset + type.width ≤ b.length) :
    b.read? type offset = some (type.decode ((b.bytes.drop offset).take type.width)) :=
  if_pos fits

/-- An integer is read exactly if all its bytes lie before the end. -/
theorem isSome_read? {type : IntegerType} {offset : Nat} :
    (b.read? type offset).isSome ↔ offset + type.width ≤ b.length := by
  rw [read?]
  split <;> simp_all

/-- An integer is written exactly if all its bytes lie before the end. -/
theorem isSome_write? {type : IntegerType} {offset : Nat} {value : Int} :
    (b.write? type offset value).isSome ↔ offset + type.width ≤ b.length := by
  rw [← IntegerType.length_encode type value, write?, put?]
  by_cases fits : offset + (type.encode value).length ≤ b.length
  · rw [dif_pos fits]
    exact iff_of_true rfl fits
  · rw [dif_neg fits]
    exact iff_of_false Bool.false_ne_true fits

/-- What a store leaves from its offset on is what was stored. -/
theorem slice_of_run? (fits : s.Fits b.length) (ran : s.run? b = some b') :
    (b'.bytes.drop s.offset).take s.stored.length = s.stored := by
  obtain ⟨_, ran', length, _, bytes⟩ := exists_run? fits
  obtain rfl := Option.some.inj (ran.symm.trans ran')
  have inside : s.offset + s.stored.length ≤ b.length := fits
  -- Position by position. From the end of the store on, there are no bytes on either side.
  apply List.ext_getElem?
  intro i
  by_cases lt : i < s.stored.length
  · rw [List.getElem?_take_of_lt lt, List.getElem?_drop, getElem?_bytes, if_pos (by omega), bytes,
      if_pos ⟨by omega, by omega⟩, Nat.add_sub_cancel_left]
  · rw [List.getElem?_eq_none (by simp; omega), List.getElem?_eq_none (by omega)]

/-! ### New buffers -/

/-- Storage is rounded up to the next whole block. -/
theorem roundUp_spec (n : Nat) :
    blockBytes ∣ roundUp n ∧ n ≤ roundUp n ∧ roundUp n < n + blockBytes := by
  refine ⟨Nat.dvd_mul_left .., le_roundUp n, ?_⟩
  unfold roundUp blockBytes
  omega

/-- A new buffer has given bytes: it is filled with one byte, or a copy. -/
inductive Made : AlignedBuffer → List UInt8 → Prop
  | filled (length : Nat) (byte : UInt8) : Made (.filled length byte) (.replicate length byte)
  | copied (contents : List UInt8) : Made (.ofBytes contents) contents

/-- A buffer that is made of some contents has just these bytes. -/
theorem Made.bytes_eq {contents : List UInt8} (made : b.Made contents) : b.bytes = contents := by
  cases made with
  | filled length byte =>
    show (List.replicate (roundUp length) byte).take length = _
    rw [List.take_replicate, Nat.min_eq_left (le_roundUp length)]
  | copied => exact List.take_left ..

/-- A buffer that is made of some contents has as many whole blocks as they need. -/
theorem Made.length_storage {contents : List UInt8} (made : b.Made contents) :
    b.storage.length = roundUp contents.length := by
  have le := le_roundUp contents.length
  cases made with
  | filled length byte => simp [AlignedBuffer.filled]
  | copied =>
    simp only [ofBytes, List.length_append, List.length_replicate]
    omega

/-! ### What a buffer does next -/

/-- What an access checks when the end of its range is computed as a word: the range goes forward,
    and ends within the length. -/
def rangeFits (offset : UInt64) (width length : Nat) : Bool :=
  offset ≤ offset + .ofNat width && (offset + .ofNat width).toNat ≤ length

/-- Where the end of the range has no word, it wraps around and lies before the offset. So the check
    is exact. -/
theorem rangeFits_iff {offset : UInt64} {width length : Nat} (narrow : width < UInt64.size)
    (short : length < UInt64.size) :
    rangeFits offset width length = true ↔ offset.toNat + width ≤ length := by
  have bound := offset.toNat_lt
  simp only [rangeFits, Bool.and_eq_true, decide_eq_true_eq, UInt64.le_iff_toNat_le,
    UInt64.toNat_add, UInt64.toNat_ofNat']
  simp only [UInt64.size] at narrow short
  omega

/-- A buffer is a store of bytes, which it keeps in whole blocks. Integers of all types are read as
    the bytes spell them, at any offset. A store changes its own bytes and no others. What reaches
    beyond the length is refused and changes nothing, also where the end of its range has no
    word. -/
structure IsByteStore (b : AlignedBuffer) (contents : List UInt8) : Prop where
  bytes_eq : b.bytes = contents
  length_eq : b.length = contents.length
  blocks : blockBytes ∣ b.storage.length ∧ contents.length ≤ b.storage.length ∧
    b.storage.length < contents.length + blockBytes
  reads : ∀ (type : IntegerType) (offset : Nat), offset + type.width ≤ contents.length →
    ∃ value, b.read? type offset = some value ∧
    type.Spells ((contents.drop offset).take type.width) value
  stores : ∀ s : BufferStore, s.Fits contents.length →
    ∃ b', s.run? b = some b' ∧ b'.length = contents.length ∧ b'.storage.length = b.storage.length ∧
      ∀ i, b'.storage[i]? =
        if s.offset ≤ i ∧ i < s.offset + s.stored.length then s.stored[i - s.offset]?
        else b.storage[i]?
  readsBack : ∀ (type : IntegerType) (offset : Nat) (value : Int),
    offset + type.width ≤ contents.length →
    type.Contains value → ∃ b', b.write? type offset value = some b' ∧
      b'.read? type offset = some value ∧
      type.Spells ((b'.bytes.drop offset).take type.width) value
  refusesReads : ∀ (type : IntegerType) (offset : Nat), contents.length < offset + type.width →
    b.read? type offset = none
  refusesStores : ∀ s : BufferStore, ¬ s.Fits contents.length → s.run? b = none ∧ b.after [s] = b
  checksWords : contents.length < UInt64.size →
    ∀ (type : IntegerType) (offset : UInt64) (value : Int),
    type.width < UInt64.size → (b.read? type offset.toNat).isSome =
      rangeFits offset type.width contents.length ∧
      (b.write? type offset.toNat value).isSome = rangeFits offset type.width contents.length

/-- A part of the contents is as long as was asked for, if they go on for so long. -/
theorem length_slice {contents : List UInt8} {offset width : Nat}
    (fits : offset + width ≤ contents.length) :
    ((contents.drop offset).take width).length = width := by
  simp
  omega

/-- A buffer in whole blocks is a store of its bytes. -/
theorem isByteStore (b : AlignedBuffer) (blocks : b.storage.length = roundUp b.length) :
    b.IsByteStore b.bytes where
  bytes_eq := rfl
  length_eq := (length_bytes b).symm
  blocks := by
    rw [length_bytes, blocks]
    exact roundUp_spec b.length
  reads := by
    intro type offset fits
    rw [length_bytes] at fits
    exact ⟨_, read?_of_fits fits, IntegerType.spells_decode (length_slice (by simpa using fits))⟩
  stores := by
    intro s fits
    rw [length_bytes] at fits ⊢
    exact exists_run? fits
  readsBack := by
    intro type offset value fits contains
    rw [length_bytes] at fits
    have stored : (BufferStore.integer type offset value).Fits b.length := by
      simpa [BufferStore.Fits, BufferStore.offset, BufferStore.stored] using fits
    obtain ⟨b', ran, length, _⟩ := exists_run? stored
    have slice : (b'.bytes.drop offset).take type.width = type.encode value := by
      simpa [BufferStore.offset, BufferStore.stored] using slice_of_run? stored ran
    have ran : b.write? type offset value = some b' := ran
    refine ⟨b', ran, ?_, slice ▸ IntegerType.spells_encode contains⟩
    rw [read?_of_fits (by omega), slice, IntegerType.decode_encode contains]
  refusesReads := by
    intro type offset beyond
    rw [length_bytes] at beyond
    exact if_neg (by omega)
  refusesStores := by
    intro s beyond
    rw [length_bytes] at beyond
    have refused : s.run? b = none := run?_eq_none_iff.mpr (Nat.lt_of_not_le beyond)
    exact ⟨refused, after_of_refused refused⟩
  checksWords := by
    intro short type offset value narrow
    rw [length_bytes] at short ⊢
    have fits : rangeFits offset type.width b.length = true ↔ _ := rangeFits_iff narrow short
    exact ⟨by rw [Bool.eq_iff_iff, fits,
      isSome_read?], by rw [Bool.eq_iff_iff, fits, isSome_write?]⟩

/-- A buffer is a faithful store of bytes. After stores of all kinds, at any offsets, into a new
    buffer of any contents, it is a store of the bytes that were last stored at each position, and
    of its contents where nothing was. -/
theorem faithful_after {contents : List UInt8} (made : b.Made contents)
    (stores : List BufferStore) :
    (b.after stores).IsByteStore (b.after stores).bytes ∧
      (b.after stores).bytes.length = contents.length ∧
      ∀ i, (b.after stores).bytes[i]? = (lastByte? contents.length stores i).or contents[i]? := by
  have same : b.length = contents.length := by rw [← made.bytes_eq, length_bytes]
  obtain ⟨length, storage⟩ := length_after b stores
  refine ⟨isByteStore _ ?_, ?_, fun i => ?_⟩
  · rw [length, storage, made.length_storage, same]
  · rw [length_bytes, length, same]
  · rw [getElem?_bytes_after, same, made.bytes_eq]

/-- Into five bytes `a5`, the integer -2 is stored, then two bytes over its lower one, then an
    integer that is too long. Afterwards the integers at offset 3 that fit are read, and no others,
    though the block goes on. -/
theorem overlapping_stores_kept :
    Made (.filled 5 0xa5) (.replicate 5 0xa5) ∧
      ((AlignedBuffer.filled 5 0xa5).after
        [.integer (.signed 2) 3 (-2), .bytes 2 [1, 2], .integer (.unsigned 8) 0 7]).IsByteStore
          [0xa5, 0xa5, 1, 2, 0xff] ∧
      (IntegerType.all.map fun type =>
        ((AlignedBuffer.filled 5 0xa5).after
          [.integer (.signed 2) 3 (-2), .bytes 2 [1, 2], .integer (.unsigned 8) 0 7]).read? type
            3) =
        [some 2, some (-254), none, none, some 2, some 65282, none, none] :=
  ⟨.filled 5 0xa5, (faithful_after (.filled 5 0xa5)
    [.integer (.signed 2) 3 (-2), .bytes 2 [1, 2], .integer (.unsigned 8) 0 7]).1, by decide⟩

end AlignedBuffer

end DerivedTypes
