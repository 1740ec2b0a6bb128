import DerivedTypes.Inspect
import DerivedTypes.LittleEndian
import DerivedTypes.Splice

namespace DerivedTypes

/-!
# Instance buffers

A byte buffer for one or more instances. Its storage consists of whole 16-byte blocks, so that it
can start at an aligned address, and its length is what was asked for: bytes past the length belong
to no access. Integers of eight types are read and written in little-endian order at any offset
(`AlignedBuffer.read?`, `write?`); an access that does not fit has no result.
-/

/-- Bytes of one block of storage. -/
def blockBytes : Nat := 16

/-- A type of integers in memory. -/
inductive IntegerType where
  | signed (width : Nat)
  | unsigned (width : Nat)
deriving DecidableEq, Repr, Inhabited

namespace IntegerType

/-- Number of bytes. -/
def width : IntegerType → Nat
  | signed width | unsigned width => width

/-- The bytes of an integer in two's complement, lowest first. -/
def encode (type : IntegerType) (value : Int) : List UInt8 :=
  littleEndian type.width (value % byteCapacity type.width).toNat

/-- The integer with the given bytes. -/
def decode (type : IntegerType) (bytes : List UInt8) : Int :=
  match type with
  | signed width => Int.bmod (ofLittleEndian bytes) (byteCapacity width)
  | unsigned _ => ofLittleEndian bytes

/-- An integer is encoded in as many bytes as its type is wide. -/
@[simp] theorem length_encode (type : IntegerType) (value : Int) :
    (type.encode value).length = type.width := by
  simp [encode]

end IntegerType

/-- Bytes in whole blocks, of which the first `length` count. -/
structure AlignedBuffer where
  storage : List UInt8
  length : Nat
  length_le : length ≤ storage.length

namespace AlignedBuffer

/-- Bytes in the fewest blocks that hold `n` bytes. -/
def roundUp (n : Nat) : Nat :=
  (n + (blockBytes - 1)) / blockBytes * blockBytes

/-- Whole blocks have room for at least as many bytes as were asked for. -/
theorem le_roundUp (n : Nat) : n ≤ roundUp n := by
  unfold roundUp blockBytes
  omega

/-- A buffer of equal bytes. -/
def filled (length : Nat) (byte : UInt8) : AlignedBuffer where
  storage := .replicate (roundUp length) byte
  length := length
  length_le := by simpa using le_roundUp length

/-- A buffer of zeros. -/
def zeroed (length : Nat) : AlignedBuffer := filled length 0

/-- The bytes that count. -/
def bytes (b : AlignedBuffer) : List UInt8 :=
  b.storage.take b.length

/-- The bytes of a buffer are as many as its length says. -/
@[simp] theorem length_bytes (b : AlignedBuffer) : b.bytes.length = b.length := by
  have := b.length_le
  simp [bytes]
  omega

/-- No byte counts. -/
def isEmpty (b : AlignedBuffer) : Bool := b.length == 0

/-- Replaces the bytes at an offset, if they all lie within the length. -/
def put? (b : AlignedBuffer) (offset : Nat) (bytes : List UInt8) : Option AlignedBuffer :=
  if h : offset + bytes.length ≤ b.length then
    some
      { b with
        storage := splice b.storage bytes offset
        length_le := by
          rw [length_splice (Nat.le_trans h b.length_le)]
          exact b.length_le }
  else none

/-- A buffer with the given bytes, the last block filled up with zeros. -/
def ofBytes (bytes : List UInt8) : AlignedBuffer where
  storage := bytes ++ .replicate (roundUp bytes.length - bytes.length) 0
  length := bytes.length
  length_le := by simp

/-- The integer at an offset, if all its bytes lie within the length. -/
def read? (b : AlignedBuffer) (type : IntegerType) (offset : Nat) : Option Int :=
  if offset + type.width ≤ b.length then
    some (type.decode ((b.bytes.drop offset).take type.width))
  else none

/-- Stores an integer at an offset, if all its bytes lie within the length. -/
def write? (b : AlignedBuffer) (type : IntegerType) (offset : Nat) (value : Int) :
    Option AlignedBuffer :=
  b.put? offset (type.encode value)

/-- The inspection text of a buffer. Storage in whole blocks is aligned. -/
def inspect (b : AlignedBuffer) : String :=
  Inspect.record "InstanceBuf"
    [("len", toString b.length), ("aligned", toString (b.storage.length % blockBytes == 0))]

end AlignedBuffer

end DerivedTypes
