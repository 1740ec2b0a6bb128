namespace DerivedTypes

/-!
# Little-endian integers

`littleEndian width n` are the `width` low bytes of `n`, lowest first, and `ofLittleEndian` adds
bytes up again. They are inverse to each other up to what the bytes can hold
(`ofLittleEndian_littleEndian`).
-/

/-- How many numbers so many bytes can hold. -/
def byteCapacity : (width : Nat) → Nat
  | 0 => 1
  | width + 1 => 256 * byteCapacity width

/-- The `width` low bytes of a number, lowest first. -/
def littleEndian : (width n : Nat) → List UInt8
  | 0, _ => []
  | width + 1, n => UInt8.ofNat n :: littleEndian width (n / 256)

/-- The number whose bytes, lowest first, are given. -/
def ofLittleEndian : List UInt8 → Nat
  | [] => 0
  | b :: rest => b.toNat + 256 * ofLittleEndian rest

/-- A number is spelt with as many bytes as are asked for. -/
@[simp] theorem length_littleEndian (width n : Nat) : (littleEndian width n).length = width := by
  induction width generalizing n with
  | zero => rfl
  | succ width ih => simp [littleEndian, ih]

/-- Reading back gives the number, less what the width cannot hold. -/
theorem ofLittleEndian_littleEndian (width n : Nat) :
    ofLittleEndian (littleEndian width n) = n % byteCapacity width := by
  induction width generalizing n with
  | zero => simp [littleEndian, ofLittleEndian, byteCapacity, Nat.mod_one]
  | succ width ih =>
    simp only [littleEndian, ofLittleEndian, byteCapacity, ih, Nat.mod_mul]
    simp

/-- Bytes spell numbers that they have room for. -/
theorem ofLittleEndian_lt (bytes : List UInt8) :
    ofLittleEndian bytes < byteCapacity bytes.length := by
  induction bytes with
  | nil => simp [ofLittleEndian, byteCapacity]
  | cons b rest ih =>
    simp only [ofLittleEndian, List.length_cons, byteCapacity]
    have := b.toNat_lt
    omega

end DerivedTypes
