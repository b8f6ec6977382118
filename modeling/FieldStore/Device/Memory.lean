/-
Host memory that stands in for a device.

The memory is a collection of regions of bytes, each under the identity it was allocated with.
A region is a whole number of words and starts out zero.  Transfers move whole words and have
to lie within the region; a transfer that does not is refused and changes nothing.  What was
transferred is counted, and the last range in each direction remembered.

Transfers are counted one by one, and no run lasts for 2^64 of them, so their number is never cut
off.  Their bytes are kept modulo 2^64, for a few transfers of large regions can already come to
that many.

Allocation comes in two steps because an identity is drawn between them, from a source that all
memories share: `grantedSize` decides whether the size is allowed, `place` makes the region.
-/
import FieldStore.Error
import FieldStore.Machine.Lanes

namespace FieldStore

/-- A range of bytes of one allocation. -/
structure TransferRange where
  tree : TreeId
  offset : Nat
  length : Nat
  deriving DecidableEq

/-- What has been transferred so far.  Byte counts are kept modulo 2^64. -/
structure Traffic where
  reads : Nat
  writes : Nat
  bytesRead : Nat
  bytesWritten : Nat
  lastRead : Option TransferRange
  lastWrite : Option TransferRange
  deriving DecidableEq

namespace Traffic

/-- Nothing transferred. -/
def none : Traffic := ⟨0, 0, 0, 0, .none, .none⟩

/-- With one more read. -/
def read (traffic : Traffic) (range : TransferRange) : Traffic :=
  { traffic with
    reads := traffic.reads + 1
    bytesRead := (traffic.bytesRead + range.length) % Size.bound
    lastRead := some range }

/-- With one more write. -/
def write (traffic : Traffic) (range : TransferRange) : Traffic :=
  { traffic with
    writes := traffic.writes + 1
    bytesWritten := (traffic.bytesWritten + range.length) % Size.bound
    lastWrite := some range }

end Traffic

/-- Whether a range of bytes consists of whole words and ends within an allocation. -/
def checkRange (offset length size : Nat) : Outcome DeviceError Unit :=
  if offset % wordBytes ≠ 0 ∨ length % wordBytes ≠ 0 then
    .error (.error (.unaligned offset length))
  else if offset + length < Size.bound ∧ offset + length ≤ size then .ok ()
  else .error (.error (.outOfRange offset length size))

/-- The regions of a host memory, the largest region it may hold, and its traffic. -/
structure HostMemory where
  regions : List (TreeId × List Byte)
  limit : Option Nat
  traffic : Traffic
  deriving DecidableEq

namespace HostMemory

/-- A memory without regions. -/
def empty (limit : Option Nat) : HostMemory := ⟨[], limit, .none⟩

/-- The bytes of a region. -/
def region? (memory : HostMemory) (tree : TreeId) : Option (List Byte) :=
  memory.regions.lookup tree

/-- The bytes of a region, or the error that there is none. -/
def region (memory : HostMemory) (tree : TreeId) : Outcome DeviceError (List Byte) :=
  match memory.region? tree with
  | some bytes => .ok bytes
  | none => .error (.error (.unknownTree tree))

/-- The number of regions. -/
def count (memory : HostMemory) : Nat := memory.regions.length

/-- The number of bytes of a region. -/
def size? (memory : HostMemory) (tree : TreeId) : Option Nat :=
  (memory.region? tree).map List.length

/-! ### Allocation -/

/-- The size of the region for an allocation: at least one word, and whole words. -/
def paddedSize (size : Nat) : Outcome DeviceError Nat := Size.roundUp (max size wordBytes) wordBytes

/-- The size of the region that an allocation is allowed to have. -/
def grantedSize (memory : HostMemory) (size : Nat) : Outcome DeviceError Nat := do
  let padded ← paddedSize size
  match memory.limit with
  | some limit =>
      if limit < padded then throw (.error (.memoryExhaustion padded limit)) else return padded
  | none => return padded

/-- The memory with one more region, all zero. -/
def place (memory : HostMemory) (tree : TreeId) (size : Nat) : Outcome DeviceError HostMemory := do
  Size.reserve 1 size
  return { memory with regions := memory.regions ++ [(tree, List.replicate size 0)] }

/-! ### Transfers -/

/-- The words of a range, and the memory with the read on record. -/
def read (memory : HostMemory) (tree : TreeId) (offset length : Nat) :
    Outcome DeviceError (Lanes × HostMemory) := do
  let bytes ← memory.region tree
  checkRange offset length bytes.length
  let lanes := Lanes.ofBytes (window offset length bytes)
  return (lanes, { memory with traffic := memory.traffic.read ⟨tree, offset, length⟩ })

/-- The regions with the one of the given identity replaced. -/
def replace (tree : TreeId) (bytes : List Byte) (regions : List (TreeId × List Byte)) :
    List (TreeId × List Byte) :=
  regions.map fun entry => if entry.1 = tree then (tree, bytes) else entry

/-- The memory with a run of words written from `offset` on, and the write on record. -/
def write (memory : HostMemory) (tree : TreeId) (offset : Nat) (words : List Word) :
    Outcome DeviceError HostMemory := do
  let bytes ← memory.region tree
  let length := words.length * wordBytes
  checkRange offset length bytes.length
  let bytes := overwrite offset (bytesOfWords words) bytes
  return { memory with
    regions := replace tree bytes memory.regions
    traffic := memory.traffic.write ⟨tree, offset, length⟩ }

end HostMemory

end FieldStore
