import DerivedTypes.Inspect
import DerivedTypes.Memory.Descriptor

namespace DerivedTypes

/-!
# Listings of memory

A region as text: bytes as two hexadecimal digits, a run of equal bytes once with its length, and
every aligned word that is a pointer as one token that names what it points to.
-/

/-- What a listing shows at a time. -/
inductive ListingToken where
  | byte (value : UInt8)
  | address (target : Address)
  | table (target : DerivedType)
deriving Inhabited

namespace ListingToken

/-- Two hexadecimal digits. -/
def hexByte (value : UInt8) : String :=
  String.ofList [Nat.digitChar (value.toNat / 16), Nat.digitChar (value.toNat % 16)]

/-- The text of a token that stands alone. -/
def text : ListingToken → String
  | byte value => hexByte value
  | address target => "<" ++ target.text ++ ">"
  | table target => "<t" ++ toString target.number ++ ">"

/-- Adds a token to runs, the latest of which comes first: as one more of that run if both are the
    same byte. -/
def addToRuns (runs : List (ListingToken × Nat)) (token : ListingToken) :
    List (ListingToken × Nat) :=
  match token, runs with
  | byte value, (byte last, count) :: earlier =>
    if value = last then (byte last, count + 1) :: earlier else (byte value, 1) :: runs
  | token, runs => (token, 1) :: runs

/-- The text of a run. -/
def runText : ListingToken × Nat → String
  | (token, count) => if count = 1 then token.text else token.text ++ "*" ++ toString count

end ListingToken

namespace Memory

/-- A region that is live or was. -/
def knows (m : Memory) : Region → Bool
  | .buffer index => index < m.buffers.size
  | .heap index => index < m.heap.size
  | .unmapped => false

/-- The token of a word that points into a region or to a table. -/
def pointerToken? (m : Memory) (word : UInt64) : Option ListingToken :=
  let target := m.placement.address word.toNat
  if m.knows target.region then some (.address target) else (m.table? word).map .table

/-- The tokens of the bytes from an aligned address on, up to the next one. -/
def tokens (m : Memory) (bytes : List UInt8) : List ListingToken :=
  match bytes.length, m.pointerToken? (.ofNat (ofLittleEndian bytes)) with
  | 8, some pointer => [pointer]
  | _, _ => bytes.map .byte

/-- The tokens of a block, run by run. -/
def runs (m : Memory) (block : Block) : List (ListingToken × Nat) :=
  let words := List.range ((block.size + 7) / 8)
  let latestFirst := words.foldl (fun runs word =>
    let bytes := (block.extract (8 * word) (8 * word + 8)).toList
    (m.tokens bytes).foldl ListingToken.addToRuns runs) []
  latestFirst.reverse

/-- The listing of a region. -/
def listing (m : Memory) (region : Region) : String :=
  " ".intercalate ((m.runs ((m.region? region).getD #[])).map ListingToken.runText)

end Memory

end DerivedTypes
