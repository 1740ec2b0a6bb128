import DerivedTypes.AlignedBuffer
import Mathlib.Data.Int.ModEq
import Mathlib.Tactic.Linarith
import Mathlib.Tactic.Positivity

namespace DerivedTypes

/-!
# Integers in two's complement

The bytes of an integer are its digits to the base 256, lowest first. A negative integer has as many
digits 255 at the high end as one likes, so that floor division gives them as well, and the bytes of
a type are the lowest ones of them.

* `IntegerType.Contains`: the integers that a type can hold;
* `IntegerType.Spells`: bytes are the digits of an integer of a type, of which there is only one
  (`Spells.unique`);
* `IntegerType.spells_decode`, `IntegerType.spells_encode`: decoding finds the integer that bytes
  spell, and encoding the bytes that spell an integer;
* `IntegerType.decode_encode`: an integer of a type is found again.
-/

/-! ### Digits -/

/-- So many bytes spell one number for each sequence of digits to base 256. -/
theorem byteCapacity_eq_pow (width : Nat) : byteCapacity width = 256 ^ width := by
  induction width with
  | zero => rfl
  | succ width ih => rw [byteCapacity, ih, pow_succ']

/-- Each byte of a number is one of its digits to base 256. -/
theorem getElem?_littleEndian {width i : Nat} (lt : i < width) (n : Nat) :
    (littleEndian width n)[i]? = some (UInt8.ofNat (n / 256 ^ i)) := by
  induction width generalizing n i with
  | zero => omega
  | succ width ih =>
    cases i with
    | zero => simp [littleEndian]
    | succ i =>
      rw [littleEndian, List.getElem?_cons_succ, ih (by omega), Nat.div_div_eq_div_mul, pow_succ']

/-- The digits of the number that bytes make up are these bytes. -/
theorem digit_ofLittleEndian {bytes : List UInt8} {i : Nat} (lt : i < bytes.length) :
    ofLittleEndian bytes / 256 ^ i % 256 = bytes[i].toNat := by
  induction bytes generalizing i with
  | nil => simp at lt
  | cons b rest ih =>
    have small := b.toNat_lt
    cases i with
    | zero =>
      simp only [ofLittleEndian, pow_zero, Nat.div_one, List.getElem_cons_zero]
      omega
    | succ i =>
      have shift : (b.toNat + 256 * ofLittleEndian rest) / 256 = ofLittleEndian rest := by omega
      rw [ofLittleEndian, pow_succ', ← Nat.div_div_eq_div_mul, shift]
      exact ih (by simpa using lt)

/-- The lowest digits of an integer are those of what remains of it in so many digits. -/
theorem digit_emod (value : Int) {i width : Nat} (lt : i < width) :
    value % 256 ^ width / 256 ^ i % 256 = value / 256 ^ i % 256 := by
  obtain ⟨k, rfl⟩ : ∃ k, width = i + (k + 1) := ⟨width - i - 1, by omega⟩
  -- The part that is cut off is a multiple of the next digit.
  have split : value = value % 256 ^ (i + (k + 1)) + 256 ^ i *
      (256 * (256 ^ k * (value / 256 ^ (i + (k + 1))))) := by
    have whole := Int.emod_add_mul_ediv value (256 ^ (i + (k + 1)))
    rw [pow_add, pow_succ] at whole ⊢
    linarith
  have positive : (256 : Int) ^ i ≠ 0 := by positivity
  conv_rhs => rw [split, Int.add_mul_ediv_left _ _ positive, Int.add_mul_emod_self_left]

/-- What remains of an integer in so many digits is the number that these digits make up. -/
theorem emod_eq_ofLittleEndian {value : Int} {bytes : List UInt8}
    (digits : ∀ i (lt : i < bytes.length), (bytes[i].toNat : Int) = value / 256 ^ i % 256) :
    value % 256 ^ bytes.length = ofLittleEndian bytes := by
  induction bytes generalizing value with
  | nil => simp [ofLittleEndian]
  | cons b rest ih =>
    have first := digits 0 (by simp)
    rw [List.getElem_cons_zero, pow_zero, Int.ediv_one] at first
    -- Without its lowest digit, the integer has the other bytes as digits.
    have others : value / 256 % 256 ^ rest.length = ofLittleEndian rest := ih fun i lt => by
      have next := digits (i + 1) (by simpa using lt)
      rw [List.getElem_cons_succ, pow_succ'] at next
      rw [next, Int.ediv_ediv_of_nonneg (by decide)]
    have bound := Int.emod_lt_of_pos (value / 256) (by positivity : (0 : Int) < 256 ^ rest.length)
    have least := Int.emod_nonneg (value / 256) (by positivity : (256 : Int) ^ rest.length ≠ 0)
    have whole := Int.emod_add_mul_ediv (value / 256) (256 ^ rest.length)
    have low := Int.emod_add_mul_ediv value 256
    have lowBound := Int.emod_lt_of_pos value (by decide : (0 : Int) < 256)
    have lowLeast := Int.emod_nonneg value (by decide : (256 : Int) ≠ 0)
    have value_eq : value = (value % 256 + 256 * (value / 256 % 256 ^ rest.length)) +
        256 ^ (b :: rest).length * (value / 256 / 256 ^ rest.length) := by
      rw [List.length_cons, pow_succ']
      linarith
    rw [value_eq, Int.add_mul_emod_self_left,
      Int.emod_eq_of_lt (by omega) (by rw [List.length_cons, pow_succ']; omega),
      others, ← first, ofLittleEndian]
    push_cast
    rfl

/-! ### Types -/

namespace IntegerType

/-- The signed and unsigned types of one, two, four and eight bytes. -/
def all : List IntegerType :=
  [signed 1, signed 2, signed 4, signed 8, unsigned 1, unsigned 2, unsigned 4, unsigned 8]

/-- A type can hold an integer. -/
def Contains (type : IntegerType) (value : Int) : Prop :=
  match type with
  | signed width => -256 ^ width ≤ 2 * value ∧ 2 * value < 256 ^ width
  | unsigned width => 0 ≤ value ∧ value < 256 ^ width

instance (type : IntegerType) (value : Int) : Decidable (type.Contains value) := by
  unfold Contains
  split <;> exact inferInstance

/-- Bytes spell an integer of a type: they are as many as the type has, and the digits of the
    integer, lowest first. -/
structure Spells (type : IntegerType) (bytes : List UInt8) (value : Int) : Prop where
  contains : type.Contains value
  length_eq : bytes.length = type.width
  digit : ∀ i (lt : i < bytes.length), (bytes[i].toNat : Int) = value / 256 ^ i % 256

variable {type : IntegerType} {bytes : List UInt8} {value other : Int}

/-- Integers of a type that differ in nothing but what the bytes cannot hold are equal. -/
theorem Contains.eq_of_emod_eq (h : type.Contains value) (h' : type.Contains other)
    (same : value % 256 ^ type.width = other % 256 ^ type.width) : value = other := by
  have dvd : (256 : Int) ^ type.width ∣ value - other := Int.ModEq.dvd same.symm
  -- Two integers of a type are less than a whole turn apart.
  refine Int.sub_eq_zero.mp (Int.eq_zero_of_abs_lt_dvd dvd ?_)
  rw [abs_lt]
  cases type with
  | signed width =>
    simp only [Contains, IntegerType.width] at *
    omega
  | unsigned width =>
    simp only [Contains, IntegerType.width] at *
    omega

/-- Bytes spell one integer only. -/
theorem Spells.unique (h : type.Spells bytes value) (h' : type.Spells bytes other) :
    value = other := by
  refine h.contains.eq_of_emod_eq h'.contains ?_
  rw [← h.length_eq, emod_eq_ofLittleEndian h.digit, emod_eq_ofLittleEndian h'.digit]

/-- Decoding gives an integer of the type that is as large as the bytes say, but for what they
    cannot hold. -/
theorem contains_decode (length : bytes.length = type.width) :
    type.Contains (type.decode bytes) ∧ type.decode bytes % 256 ^ type.width =
    ofLittleEndian bytes := by
  have bound : ofLittleEndian bytes < 256 ^ type.width := by
    rw [← length, ← byteCapacity_eq_pow]
    exact ofLittleEndian_lt bytes
  have small : (ofLittleEndian bytes : Int) < 256 ^ type.width := by exact_mod_cast bound
  -- A signed type takes the remainder that is nearest to zero, an unsigned one that from zero on.
  cases type with
  | signed width =>
    simp only [Contains, decode, IntegerType.width, byteCapacity_eq_pow] at *
    have positive : 0 < 256 ^ width := Nat.pow_pos (by decide)
    have low := Int.le_bmod (x := ofLittleEndian bytes) positive
    have high := Int.bmod_lt (x := ofLittleEndian bytes) positive
    have same := Int.bmod_emod (x := ofLittleEndian bytes) (m := 256 ^ width)
    push_cast at low high same
    refine ⟨⟨by omega, by omega⟩, same.trans (Int.emod_eq_of_lt (by omega) small)⟩
  | unsigned width =>
    simp only [Contains, decode, IntegerType.width] at *
    exact ⟨⟨by omega, small⟩, Int.emod_eq_of_lt (by omega) small⟩

/-- Decoding finds the integer that bytes spell. -/
theorem spells_decode (length : bytes.length = type.width) :
    type.Spells bytes (type.decode bytes) := by
  obtain ⟨contains, same⟩ := contains_decode length
  refine ⟨contains, length, fun i lt => ?_⟩
  rw [← digit_emod (type.decode bytes) (length ▸ lt), same, ← digit_ofLittleEndian lt]
  push_cast
  rfl

/-- Encoding finds the bytes that spell an integer. -/
theorem spells_encode (contains : type.Contains value) : type.Spells (type.encode value) value := by
  refine ⟨contains, length_encode type value, fun i lt => ?_⟩
  rw [length_encode] at lt
  have here := getElem?_littleEndian lt (value % byteCapacity type.width).toNat
  rw [show littleEndian _ _ = type.encode value from rfl] at here
  obtain ⟨_, there⟩ := List.getElem?_eq_some_iff.mp here
  have least : 0 ≤ value % 256 ^ type.width := Int.emod_nonneg _ (by positivity)
  rw [there, ← digit_emod value lt, byteCapacity_eq_pow, UInt8.toNat_ofNat']
  push_cast
  rw [Int.toNat_of_nonneg least]

/-- An integer of the type is found again. -/
theorem decode_encode (contains : type.Contains value) : type.decode (type.encode value) = value :=
  (spells_decode (length_encode type value)).unique (spells_encode contains)

end IntegerType

end DerivedTypes
