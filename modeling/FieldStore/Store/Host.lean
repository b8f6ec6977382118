/-
A program together with the host memory that serves as its device.

Operations run in `HostM`: they change a `Host` and end with a result, an error or a fault.  The
state survives a failure as far as it had got, which is what happens to the storage that a
materialization had obtained before it was refused more.

Materialization closes every tree that wants storage and then asks for the storage of one after
the other.  It stops at the first refusal; trees before that one keep what they were given, and
the rest stay closed and wait for the next attempt.

Identities are drawn one by one as well as texture numbers, and on a machine both are words.  No run
draws 2^64 identities, so they are counted without end here, and what is said of regions need not
mention that bound.  Texture numbers begin again after 2^64 of them, which makes the bound up to
which textures are told apart a part of what is proved of them.
-/
import FieldStore.Device.Memory
import FieldStore.Event
import FieldStore.Image.Texture
import FieldStore.Store.Field

namespace FieldStore

/-- A program, its device, the source of identities that it shares with other programs, and the
events recorded so far. -/
structure Host where
  program : Program
  memory : HostMemory
  nextId : Nat
  log : List Event
  deriving DecidableEq

/-- A computation that changes a host and may fail. -/
abbrev HostM (ε : Type) (α : Type) : Type := ExceptT (Failure ε) (StateM Host) α

namespace Host

variable {α ε : Type}

/-- Records an event. -/
def record (event : Event) : HostM ε Unit :=
  modify fun host => { host with log := host.log ++ [event] }

/-- Replaces the program. -/
def setProgram (program : Program) : HostM ε Unit :=
  modify fun host => { host with program := program }

/-- Replaces the memory. -/
def setMemory (memory : HostMemory) : HostM ε Unit :=
  modify fun host => { host with memory := memory }

/-! ### The device -/

/-- Takes the next identity. -/
def drawId : HostM ε TreeId := do
  let host ← get
  set { host with nextId := host.nextId + 1 }
  return ⟨host.nextId⟩

/-- Makes a region for `size` bytes. -/
def allocate (size : Nat) : HostM DeviceError TreeId := do
  let host ← get
  let padded ← host.memory.grantedSize size
  let id ← drawId
  let memory ← host.memory.place id padded
  setMemory memory
  return id

/-- Reads a range of a region. -/
def readRegion (tree : TreeId) (offset length : Nat) : HostM DeviceError Lanes := do
  let host ← get
  let (lanes, memory) ← host.memory.read tree offset length
  setMemory memory
  return lanes

/-- Writes a run of words into a region. -/
def writeRegion (tree : TreeId) (offset : Nat) (words : List Word) : HostM DeviceError Unit := do
  let host ← get
  let memory ← host.memory.write tree offset words
  setMemory memory

/-- A computation on the device, its errors passed on as errors of the library. -/
def onDevice (action : HostM DeviceError α) : HostM FieldError α :=
  ExceptT.adapt (Failure.map FieldError.device) action

/-! ### Declarations -/

/-- Declares a field. -/
def declare (ty : ElementType) (dims : List Nat) : HostM FieldError Field := do
  let host ← get
  let (field, program) ← host.program.declare ty dims
  setProgram program
  return field

/-- Takes the next texture number, whether or not a texture comes of it.  The numbers are machine
words, and after the last one they begin again with zero. -/
def drawTextureId : HostM ε TextureId := do
  let host ← get
  setProgram { host.program with nextTexture := (host.program.nextTexture + 1) % Size.bound }
  return ⟨host.program.nextTexture⟩

/-- Makes a texture. -/
def texture (primitive : Primitive) (components : Nat) (dims : List Nat) :
    HostM FieldError Texture := do
  let id ← drawTextureId
  Texture.ofDims id primitive components dims

/-- Makes a texture of a surface with the given format. -/
def canvasTexture (format : String) : HostM FieldError CanvasTexture := do
  let id ← drawTextureId
  return ⟨id, format⟩

/-! ### Materialization -/

/-- Obtains storage for one closed tree. -/
def obtainStorage (index size : Nat) : HostM FieldError Unit := do
  let id ← onDevice (allocate size)
  let host ← get
  setProgram (host.program.attach index id)

/-- Obtains storage for every tree that wants some. -/
def materialize : HostM FieldError Unit := do
  let host ← get
  setProgram host.program.sealPending
  host.program.pending.forM fun (index, size) => obtainStorage index size

/-- The storage of a tree, materializing if it has none yet. -/
def requireStorage (tree : Nat) : HostM FieldError TreeId := do
  match (← get).program.storage? tree with
  | some id => return id
  | none =>
      materialize
      match (← get).program.storage? tree with
      | some id => return id
      | none => throw (.error (.notMaterialized tree))

end Host

end FieldStore
