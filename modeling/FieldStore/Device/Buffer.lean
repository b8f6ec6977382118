/-
Buffers of a graphics device.

The device is reached through an API that creates buffers, queues writes, submits copies and maps
buffers for reading.  The library adds little to it.  A write is queued and submitted at once.  A
read does not look at the buffer: it copies the range into a staging buffer of its own, maps that
and decodes it, except that an empty range needs no staging and is answered at once.

`GraphicsApi` has what is called of the API.  `Graphics` is a device that carries it out on lists of
bytes: a buffer starts out zero, and writes and copies act in the order of their submission.
Ranges outside the buffer and sizes that are no whole number of words are for the device to
refuse; what it refuses is answered with `none`.
-/
import FieldStore.Machine.Lanes

namespace FieldStore

/-- What a buffer may be used for. -/
inductive BufferUsage
  | copySource
  | copyDestination
  | storage
  | mapRead
  deriving DecidableEq, Repr

/-- The name of a usage. -/
def BufferUsage.text : BufferUsage → String
  | copySource => "COPY_SRC"
  | copyDestination => "COPY_DST"
  | storage => "STORAGE"
  | mapRead => "MAP_READ"

/-! ### The API -/

/-- A copy of a range of one buffer into another. -/
structure BufferCopy (β : Type) where
  source : β
  sourceOffset : Nat
  target : β
  targetOffset : Nat
  length : Nat

/-- What is called of a graphics API whose device has states `σ` and whose buffers are known as
`β`. -/
structure GraphicsApi (σ β : Type) where
  /-- Creates a buffer of the given size. -/
  createBuffer (size : Nat) (label : String) (usage : List BufferUsage) : σ → β × σ
  /-- Queues a write of bytes into a buffer, from an offset on. -/
  writeBuffer (buffer : β) (offset : Nat) (bytes : List Byte) : σ → Option σ
  /-- Submits what has been queued, and then copies. -/
  submit (copies : List (BufferCopy β)) : σ → Option σ
  /-- Waits for what has been submitted and reads a buffer as a whole. -/
  mapRead (buffer : β) : σ → Option (List Byte × σ)

namespace GraphicsApi

variable {σ β : Type}

/-- Creates a buffer that can be copied from, copied to and bound as storage. -/
def createStorageBuffer (api : GraphicsApi σ β) (size : Nat) (label : String) : σ → β × σ :=
  api.createBuffer size label [.copySource, .copyDestination, .storage]

/-- Writes a run of words into a buffer. -/
def write (api : GraphicsApi σ β) (buffer : β) (offset : Nat) (words : List Word) (state : σ) :
    Option σ := do
  let state ← api.writeBuffer buffer offset (bytesOfWords words) state
  api.submit [] state

/-- Reads a range of a buffer. -/
def read (api : GraphicsApi σ β) (buffer : β) (offset length : Nat) (state : σ) :
    Option (Lanes × σ) :=
  if length = 0 then some (Lanes.ofWords [], state)
  else do
    let (staging, state) :=
      api.createBuffer length "Staging Buffer" [.mapRead, .copyDestination] state
    let state ← api.submit [⟨buffer, offset, staging, 0, length⟩] state
    let (bytes, state) ← api.mapRead staging state
    return (Lanes.ofBytes bytes, state)

end GraphicsApi

/-! ### Buffers of bytes -/

/-- A buffer and its contents. -/
structure Buffer where
  label : String
  usage : List BufferUsage
  contents : List Byte
  deriving DecidableEq

namespace Buffer

/-- A buffer of zeros. -/
def zeroed (size : Nat) (label : String) (usage : List BufferUsage) : Buffer :=
  ⟨label, usage, List.replicate size 0⟩

/-- The number of bytes. -/
def size (buffer : Buffer) : Nat := buffer.contents.length

/-- The bytes of a range that lies within the buffer. -/
def range? (buffer : Buffer) (offset length : Nat) : Option (List Byte) :=
  if offset + length ≤ buffer.size then some (window offset length buffer.contents) else none

/-- The buffer with bytes written from `offset` on. -/
def write? (buffer : Buffer) (offset : Nat) (bytes : List Byte) : Option Buffer :=
  if offset + bytes.length ≤ buffer.size then
    some { buffer with contents := overwrite offset bytes buffer.contents }
  else none

end Buffer

/-- The buffers of a device, by the order in which they were created. -/
structure Graphics where
  buffers : List Buffer
  deriving DecidableEq

namespace Graphics

/-- A device without buffers. -/
def empty : Graphics := ⟨[]⟩

/-- The device with one more buffer, and the number of that buffer. -/
def create (size : Nat) (label : String) (usage : List BufferUsage) (graphics : Graphics) :
    Nat × Graphics :=
  (graphics.buffers.length, ⟨graphics.buffers ++ [Buffer.zeroed size label usage]⟩)

/-- The device with bytes written into a buffer.  A write of nothing is not carried out at all,
wherever it is aimed. -/
def store (index offset : Nat) (bytes : List Byte) (graphics : Graphics) : Option Graphics :=
  if bytes.isEmpty then some graphics
  else do
    let buffer ← graphics.buffers[index]?
    let buffer ← buffer.write? offset bytes
    return ⟨graphics.buffers.set index buffer⟩

/-- The device after a copy. -/
def copy (graphics : Graphics) (command : BufferCopy Nat) : Option Graphics := do
  let source ← graphics.buffers[command.source]?
  let bytes ← source.range? command.sourceOffset command.length
  graphics.store command.target command.targetOffset bytes

/-- The contents of a buffer, and the device as it is. -/
def map (index : Nat) (graphics : Graphics) : Option (List Byte × Graphics) := do
  let buffer ← graphics.buffers[index]?
  return (buffer.contents, graphics)

/-- The API of the device.  Whatever is queued is carried out at once. -/
def api : GraphicsApi Graphics Nat where
  createBuffer := create
  writeBuffer := store
  submit copies graphics := copies.foldlM copy graphics
  mapRead := map

/-- The device with one more storage buffer, and that buffer. -/
def createStorageBuffer (graphics : Graphics) (size : Nat) (label : String) : Buffer × Graphics :=
  let (_, graphics) := api.createStorageBuffer size label graphics
  (Buffer.zeroed size label [.copySource, .copyDestination, .storage], graphics)

/-- The device after a run of words has been written. -/
def writeBuffer (graphics : Graphics) (index offset : Nat) (words : List Word) :
    Option Graphics :=
  api.write index offset words graphics

/-- The words of a range of a buffer.  The staging buffer does not outlive the read. -/
def readBuffer (graphics : Graphics) (index offset length : Nat) : Option Lanes := do
  let (lanes, _) ← api.read index offset length graphics
  return lanes

end Graphics

/-- What is known about an adapter. -/
structure AdapterInfo where
  name : String
  vendor : String
  deviceType : String
  backend : String

/-- The text that presents an adapter, one line per item. -/
def AdapterInfo.text (info : AdapterInfo) : String :=
  "GPU Info:\n" ++
  s!"  Name: {info.name}\n" ++
  s!"  Vendor: {info.vendor}\n" ++
  s!"  Type: {info.deviceType}\n" ++
  s!"  Backend: {info.backend}\n"

end FieldStore
