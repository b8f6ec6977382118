/-
The host memory seen as a memory of words.

Whoever uses a memory knows it by its answers.  What the answers of a run tell is a `WordMemory`:
which identities stand for a region, of what size, and the word that was last written at each
position, zero where there was none.  The bytes of the host memory are at every point the
little-endian bytes of those words.  One call keeps this, whether it succeeds or not, because an
allocation adds zeros under an identity that nobody has, a write overwrites whole words of one
region, and nothing else touches a byte; a run follows by induction.  So what a call answers can be
told from the answers before it, and no byte order, padding or position comes into it.
-/
import FieldStore.Proofs.Store.Run

namespace FieldStore

/-! ### Calls -/

/-- A call on a memory. -/
inductive MemoryCall
  | allocate (size : Nat)
  | read (id : TreeId) (offset length : Nat)
  | write (id : TreeId) (offset : Nat) (words : List Word)
  /-- An identity is drawn for another memory. -/
  | drawId

/-- What a call answers. -/
inductive MemoryAnswer
  | identity (id : TreeId)
  | lanes (lanes : Lanes)
  | done

/-- Carries out a call. -/
def MemoryCall.run : MemoryCall → HostM DeviceError MemoryAnswer
  | allocate size => do
      let id ← Host.allocate size
      return .identity id
  | read id offset length => do
      let lanes ← Host.readRegion id offset length
      return .lanes lanes
  | write id offset words => do
      Host.writeRegion id offset words
      return .done
  | drawId => do
      let id ← Host.drawId
      return .identity id

/-- A call and how it ended. -/
abbrev MemoryEvent : Type := MemoryCall × Outcome DeviceError MemoryAnswer

namespace Host

/-- A host with an empty memory. -/
def bare (limit : Option Nat) (nextId : Nat) : Host :=
  ⟨Program.empty, HostMemory.empty limit, nextId, []⟩

/-- How a call ends. -/
def answer (host : Host) (call : MemoryCall) : Outcome DeviceError MemoryAnswer :=
  (runs call.run host).1

/-- The host after a call. -/
def called (host : Host) (call : MemoryCall) : Host := (runs call.run host).2

/-- The host after a run of calls. -/
def calledAll (host : Host) (calls : List MemoryCall) : Host := calls.foldl called host

/-- The calls of a run, each with how it ended. -/
def transcript : Host → List MemoryCall → List MemoryEvent
  | _, [] => []
  | host, call :: rest => (call, host.answer call) :: (host.called call).transcript rest

end Host

/-! ### Memories of words -/

/-- Regions of words under identities. -/
structure WordMemory where
  /-- The number of bytes of a region. -/
  size? : TreeId → Option Nat
  /-- The word at a position of a region. -/
  word : TreeId → Nat → Word

namespace WordMemory

/-- No regions, and nothing written. -/
def empty : WordMemory := ⟨fun _ => none, fun _ _ => 0⟩

/-- The memory with one more region. -/
def allocated (memory : WordMemory) (id : TreeId) (size : Nat) : WordMemory :=
  { memory with size? := fun other => if other = id then some size else memory.size? other }

/-- The memory with words written into a region, from the position `first` on. -/
def written (memory : WordMemory) (id : TreeId) (first : Nat) (words : List Word) : WordMemory :=
  { memory with
    word := fun other position =>
      if other = id ∧ first ≤ position then
        words[position - first]?.getD (memory.word other position)
      else memory.word other position }

/-- The memory after an event.  Only what succeeds changes it. -/
def note (memory : WordMemory) : MemoryEvent → WordMemory
  | (.allocate size, .ok (.identity id)) => memory.allocated id (HostMemory.wholeWords size)
  | (.write id offset words, .ok _) => memory.written id (offset / wordBytes) words
  | _ => memory

/-- The memory that a transcript tells of. -/
def told (transcript : List MemoryEvent) : WordMemory := transcript.foldl note empty

/-- The words of a region from the position `first` on. -/
def words (memory : WordMemory) (id : TreeId) (first count : Nat) : List Word :=
  (List.range count).map fun i => memory.word id (first + i)

/-- The bytes of a region. -/
def bytes? (memory : WordMemory) (id : TreeId) : Option (List Byte) :=
  (memory.size? id).map fun size => bytesOfWords (memory.words id 0 (size / wordBytes))

/-- What is wrong with a range: there is no such region, it is not made of whole words, or it ends
beyond the region.  The first of these is reported. -/
def refusal? (memory : WordMemory) (id : TreeId) (offset length : Nat) : Option DeviceError :=
  match memory.size? id with
  | none => some (.unknownTree id)
  | some size =>
      if offset % wordBytes ≠ 0 ∨ length % wordBytes ≠ 0 then some (.unaligned offset length)
      else if size < offset + length then some (.outOfRange offset length size)
      else none

/-- What a read of a range answers. -/
def readAnswer (memory : WordMemory) (id : TreeId) (offset length : Nat) :
    Outcome DeviceError MemoryAnswer :=
  match memory.refusal? id offset length with
  | some cause => .error (.error cause)
  | none =>
      .ok (.lanes (Lanes.ofWords (memory.words id (offset / wordBytes) (length / wordBytes))))

/-- What a write into a range answers. -/
def writeAnswer (memory : WordMemory) (id : TreeId) (offset : Nat) (words : List Word) :
    Outcome DeviceError MemoryAnswer :=
  match memory.refusal? id offset (words.length * wordBytes) with
  | some cause => .error (.error cause)
  | none => .ok .done

variable {memory : WordMemory} {id other : TreeId}

theorem length_words (first count : Nat) : (memory.words id first count).length = count := by
  rw [words, List.length_map, List.length_range]

theorem getElem?_words (first count i : Nat) :
    (memory.words id first count)[i]?
      = if i < count then some (memory.word id (first + i)) else none := by
  rw [words, List.getElem?_map]
  by_cases hi : i < count
  · rw [if_pos hi, List.getElem?_range hi, Option.map_some]
  · rw [if_neg hi, List.getElem?_eq_none (by simpa using Nat.le_of_not_lt hi), Option.map_none]

theorem window_words {first count size : Nat} (h : first + count ≤ size) :
    window first count (memory.words id 0 size) = memory.words id first count := by
  apply List.ext_getElem?
  intro i
  rw [getElem?_window, getElem?_words, getElem?_words]
  by_cases hi : i < count
  · rw [if_pos hi, if_pos hi, if_pos (by omega), Nat.zero_add]
  · rw [if_neg hi, if_neg hi]

theorem words_written_self {first count : Nat} {patch : List Word}
    (h : first + patch.length ≤ count) :
    (memory.written id first patch).words id 0 count
      = overwrite first patch (memory.words id 0 count) := by
  have hfirst : first ≤ (memory.words id 0 count).length := by
    rw [length_words]
    omega
  apply List.ext_getElem?
  intro i
  rw [getElem?_overwrite i hfirst, getElem?_words, getElem?_words, Nat.zero_add]
  by_cases hbefore : i < first
  · have hword : (memory.written id first patch).word id i = memory.word id i :=
      if_neg fun hc => Nat.not_le.mpr hbefore hc.2
    rw [if_pos hbefore, hword]
  · have hword : (memory.written id first patch).word id i
        = patch[i - first]?.getD (memory.word id i) := if_pos ⟨rfl, Nat.le_of_not_lt hbefore⟩
    rw [if_neg hbefore, hword]
    by_cases hwithin : i < first + patch.length
    · have hpatch : i - first < patch.length := by omega
      rw [if_pos hwithin, if_pos (by omega), List.getElem?_eq_getElem hpatch, Option.getD_some]
    · rw [if_neg hwithin, List.getElem?_eq_none (by omega), Option.getD_none]

theorem words_written_of_ne {first start count : Nat} {patch : List Word} (h : other ≠ id) :
    (memory.written id first patch).words other start count = memory.words other start count :=
  List.map_congr_left fun _ _ => if_neg fun hc => h hc.1

theorem words_blank (h : ∀ position, memory.word id position = 0) (first count : Nat) :
    memory.words id first count = List.replicate count 0 := by
  apply List.ext_getElem?
  intro i
  rw [getElem?_words, List.getElem?_replicate, h]

/-! ### What the bytes have to do with the words -/

/-- The regions of a host are those of a memory of words, byte for byte. -/
structure Describes (seen : WordMemory) (host : Host) : Prop where
  regions : ∀ id, host.memory.region? id = seen.bytes? id
  /-- A region is made of whole words and is one object. -/
  whole : ∀ id size, seen.size? id = some size →
    size % wordBytes = 0 ∧ size ≤ Size.objectLimit
  /-- Its identity has been drawn. -/
  drawn : ∀ id size, seen.size? id = some size → id.number < host.nextId
  /-- Where there is no region nothing has been written. -/
  blank : ∀ id, seen.size? id = none → ∀ position, seen.word id position = 0

namespace Describes

variable {seen : WordMemory} {host host' : Host}

theorem start (limit : Option Nat) (nextId : Nat) : empty.Describes (Host.bare limit nextId) := by
  constructor <;> simp [empty, bytes?, Host.bare, HostMemory.empty, HostMemory.region?]

/-- Identities may be drawn and traffic recorded without any consequence. -/
theorem of_regions (h : seen.Describes host) (hregions : host'.memory.regions = host.memory.regions)
    (hnext : host.nextId ≤ host'.nextId) : seen.Describes host' := by
  refine ⟨?_, h.whole, fun id size hsize => Nat.lt_of_lt_of_le (h.drawn id size hsize) hnext,
    h.blank⟩
  intro id
  rw [HostMemory.region?, hregions]
  exact h.regions id

theorem size?_eq (h : seen.Describes host) (id : TreeId) :
    host.memory.size? id = seen.size? id := by
  rw [HostMemory.size?, h.regions, bytes?]
  cases hsize : seen.size? id with
  | none => rfl
  | some size =>
      obtain ⟨hwhole, -⟩ := h.whole id size hsize
      rw [Option.map_some, Option.map_some, length_bytesOfWords, length_words,
        Nat.div_mul_cancel (Nat.dvd_of_mod_eq_zero hwhole)]

theorem region?_eq_none (h : seen.Describes host) {id : TreeId} (hdrawn : host.nextId ≤ id.number) :
    host.memory.region? id = none := by
  rw [h.regions, bytes?]
  cases hsize : seen.size? id with
  | none => rfl
  | some size =>
      have hlt : id.number < host.nextId := h.drawn id size hsize
      omega

/-! ### One call -/

/-- The bytes of a new region are those of words that nobody has written. -/
theorem bytes?_allocated (h : seen.Describes host) {size : Nat} (hwhole : size % wordBytes = 0) :
    (seen.allocated ⟨host.nextId⟩ size).bytes? ⟨host.nextId⟩ = some (List.replicate size 0) := by
  have hunknown : seen.size? ⟨host.nextId⟩ = none := by
    rw [← h.size?_eq, HostMemory.size?, h.region?_eq_none (Nat.le_refl _)]
    rfl
  have hsize : (seen.allocated ⟨host.nextId⟩ size).size? ⟨host.nextId⟩ = some size := if_pos rfl
  have hblank : ∀ position,
      (seen.allocated ⟨host.nextId⟩ size).word ⟨host.nextId⟩ position = 0 := h.blank _ hunknown
  rw [bytes?, hsize, Option.map_some, words_blank hblank, bytesOfWords_zeros,
    Nat.div_mul_cancel (Nat.dvd_of_mod_eq_zero hwhole)]

theorem allocated (h : seen.Describes host) {size : Nat} (hwhole : size % wordBytes = 0)
    (hobject : size ≤ Size.objectLimit) :
    (seen.allocated ⟨host.nextId⟩ size).Describes { host with
      memory := host.memory.withZeros ⟨host.nextId⟩ size
      nextId := host.nextId + 1 } := by
  have hfresh : host.memory.region? ⟨host.nextId⟩ = none := h.region?_eq_none (Nat.le_refl _)
  have hself : (seen.allocated ⟨host.nextId⟩ size).size? ⟨host.nextId⟩ = some size := if_pos rfl
  have hother : ∀ id, id ≠ ⟨host.nextId⟩ →
      (seen.allocated ⟨host.nextId⟩ size).size? id = seen.size? id := fun _ hne => if_neg hne
  constructor
  · intro id
    by_cases hid : id = ⟨host.nextId⟩
    · rw [hid, h.bytes?_allocated hwhole, HostMemory.region?_withZeros_self hfresh]
    · rw [HostMemory.region?_withZeros_of_ne hid, h.regions, bytes?, bytes?, hother id hid]
      rfl
  · intro id found hfound
    by_cases hid : id = ⟨host.nextId⟩
    · rw [hid, hself] at hfound
      cases hfound
      exact ⟨hwhole, hobject⟩
    · rw [hother id hid] at hfound
      exact h.whole id found hfound
  · intro id found hfound
    by_cases hid : id = ⟨host.nextId⟩
    · rw [hid]
      exact Nat.lt_succ_self _
    · rw [hother id hid] at hfound
      exact Nat.lt_succ_of_lt (h.drawn id found hfound)
  · intro id hnone
    by_cases hid : id = ⟨host.nextId⟩
    · rw [hid, hself] at hnone
      cases hnone
    · rw [hother id hid] at hnone
      exact h.blank id hnone

/-- The bytes of a region that has been written to are those of the words that are there now. -/
theorem written (h : seen.Describes host) {id : TreeId} {offset : Nat} {words : List Word}
    {bytes : List Byte} (hbytes : host.memory.region? id = some bytes)
    (hrange : checkRange offset (words.length * wordBytes) bytes.length = .ok ()) :
    (seen.written id (offset / wordBytes) words).Describes
      { host with memory := host.memory.afterWrite id offset words bytes } := by
  obtain ⟨hoffset, -, -, hend⟩ := checkRange_eq_ok_iff.mp hrange
  have hstart : offset / wordBytes * wordBytes = offset :=
    Nat.div_mul_cancel (Nat.dvd_of_mod_eq_zero hoffset)
  have hseen : seen.bytes? id = some bytes := by rw [← h.regions, hbytes]
  obtain ⟨size, hsize, hcontents⟩ := Option.map_eq_some_iff.mp hseen
  have hlength : bytes.length = size / wordBytes * wordBytes := by
    rw [← hcontents, length_bytesOfWords, length_words]
  have hwithin : offset / wordBytes + words.length ≤ size / wordBytes := by
    refine Nat.le_of_mul_le_mul_right ?_ wordBytes_pos
    rwa [Nat.add_mul, hstart, ← hlength]
  refine ⟨?_, h.whole, h.drawn, ?_⟩
  · intro other
    by_cases hother : other = id
    · have hfound : (seen.written id (offset / wordBytes) words).size? id = some size := hsize
      have hfits : offset / wordBytes + words.length
          ≤ (seen.words id 0 (size / wordBytes)).length := by
        rwa [length_words]
      rw [hother, HostMemory.region?_afterWrite_self hbytes, bytes?, hfound, Option.map_some,
        words_written_self hwithin, ← overwrite_bytesOfWords hfits, hstart, hcontents]
    · rw [HostMemory.region?_afterWrite_of_ne hother, h.regions, bytes?, bytes?]
      refine Option.map_congr fun _ _ => ?_
      rw [words_written_of_ne hother]
  · intro other hnone position
    have hother : other ≠ id := by
      intro heq
      rw [heq] at hnone
      exact Option.some_ne_none size (hsize.symm.trans hnone)
    exact (if_neg fun hc => hother hc.1).trans (h.blank other hnone position)

/-- A call leaves behind what its answer tells. -/
theorem called (h : seen.Describes host) (call : MemoryCall) :
    (seen.note (call, host.answer call)).Describes (host.called call) := by
  refine Host.outcome_of_ends (P := fun answer left => (seen.note (call, answer)).Describes left) ?_
  cases call with
  | allocate size =>
      rw [MemoryCall.run, Host.ends_bind]
      refine Host.ends_allocate ?_ ?_ ?_
      · intro padded hgranted hobject
        obtain ⟨hpadded, -⟩ := HostMemory.grantedSize_eq_ok_iff.mp hgranted
        obtain rfl := HostMemory.paddedSize_eq_ok hpadded
        exact h.allocated (HostMemory.wholeWords_mod size) hobject
      · intro failure _
        exact h
      · intro padded _ _
        exact h.of_regions rfl (Nat.le_succ _)
  | read id offset length =>
      rw [MemoryCall.run, Host.ends_bind]
      refine Host.ends_readRegion ?_ ?_
      · intro bytes _ _
        exact h.of_regions rfl (Nat.le_refl _)
      · intro failure _
        exact h
  | write id offset words =>
      rw [MemoryCall.run, Host.ends_bind]
      refine Host.ends_writeRegion ?_ ?_
      · intro bytes hbytes hrange
        exact h.written hbytes hrange
      · intro failure _
        exact h
  | drawId =>
      rw [MemoryCall.run, Host.ends_bind, Host.ends_drawId]
      exact h.of_regions rfl (Nat.le_succ _)

/-- So does a run. -/
theorem calledAll (calls : List MemoryCall) :
    ∀ {seen : WordMemory} {host : Host}, seen.Describes host →
      ((host.transcript calls).foldl note seen).Describes (host.calledAll calls) := by
  induction calls with
  | nil => exact fun h => h
  | cons call rest ih => exact fun h => ih (h.called call)

/-! ### Answers -/

/-- Whether a transfer is refused, and why, is a matter of the sizes. -/
theorem checkTransfer_eq (h : seen.Describes host) (id : TreeId) (offset length : Nat) :
    host.memory.checkTransfer id offset length =
      match seen.refusal? id offset length with
      | some cause => .error (.error cause)
      | none => .ok () := by
  have hsize : host.memory.size? id = seen.size? id := h.size?_eq id
  rw [HostMemory.checkTransfer, HostMemory.region, refusal?, ← hsize, HostMemory.size?]
  cases hregion : host.memory.region? id with
  | none => rfl
  | some bytes =>
      rw [HostMemory.size?, hregion] at hsize
      obtain ⟨-, hobject⟩ := h.whole id bytes.length hsize.symm
      have hrange := checkRange_of_lt offset length
        (Nat.lt_of_le_of_lt hobject (by decide : Size.objectLimit < Size.bound))
      by_cases haligned : offset % wordBytes ≠ 0 ∨ length % wordBytes ≠ 0
      · rw [if_pos haligned] at hrange
        simp [bind, Except.bind, hrange, haligned]
      · rw [if_neg haligned] at hrange
        by_cases hbeyond : bytes.length < offset + length
        · rw [if_pos hbeyond] at hrange
          simp [bind, Except.bind, hrange, haligned, hbeyond]
        · rw [if_neg hbeyond] at hrange
          simp [bind, Except.bind, hrange, haligned, hbeyond]

/-- A window of a region holds the words that are at its positions. -/
theorem ofBytes_window (h : seen.Describes host) {id : TreeId} {offset length : Nat}
    {bytes : List Byte} (hbytes : host.memory.region? id = some bytes)
    (hrange : checkRange offset length bytes.length = .ok ()) :
    Lanes.ofBytes (window offset length bytes)
      = Lanes.ofWords (seen.words id (offset / wordBytes) (length / wordBytes)) := by
  obtain ⟨hoffset, hlength, -, hend⟩ := checkRange_eq_ok_iff.mp hrange
  have hstart : offset / wordBytes * wordBytes = offset :=
    Nat.div_mul_cancel (Nat.dvd_of_mod_eq_zero hoffset)
  have hcount : length / wordBytes * wordBytes = length :=
    Nat.div_mul_cancel (Nat.dvd_of_mod_eq_zero hlength)
  have hseen : seen.bytes? id = some bytes := by rw [← h.regions, hbytes]
  obtain ⟨size, hsize, hcontents⟩ := Option.map_eq_some_iff.mp hseen
  have hwithin : offset / wordBytes + length / wordBytes ≤ size / wordBytes := by
    refine Nat.le_of_mul_le_mul_right ?_ wordBytes_pos
    rw [Nat.add_mul, hstart, hcount]
    rwa [← hcontents, length_bytesOfWords, length_words] at hend
  calc Lanes.ofBytes (window offset length bytes)
      = Lanes.ofWords (wordsOfBytes
          (window (offset / wordBytes * wordBytes) (length / wordBytes * wordBytes) bytes)) := by
        rw [hstart, hcount]
        rfl
    _ = Lanes.ofWords (window (offset / wordBytes) (length / wordBytes)
          (seen.words id 0 (size / wordBytes))) := by
        rw [wordsOfBytes_window, ← hcontents, wordsOfBytes_bytesOfWords]
    _ = Lanes.ofWords (seen.words id (offset / wordBytes) (length / wordBytes)) := by
        rw [window_words hwithin]

theorem refusal?_eq_none (h : seen.Describes host) {id : TreeId} {offset length : Nat}
    (hok : host.memory.checkTransfer id offset length = .ok ()) :
    seen.refusal? id offset length = none := by
  have hadmitted := h.checkTransfer_eq id offset length
  rw [hok] at hadmitted
  cases hrefusal : seen.refusal? id offset length with
  | none => rfl
  | some cause =>
      rw [hrefusal] at hadmitted
      cases hadmitted

theorem refusal?_eq_some (h : seen.Describes host) {id : TreeId} {offset length : Nat}
    {failure : Failure DeviceError}
    (herror : host.memory.checkTransfer id offset length = .error failure) :
    ∃ cause, seen.refusal? id offset length = some cause ∧ failure = .error cause := by
  have hadmitted := h.checkTransfer_eq id offset length
  rw [herror] at hadmitted
  cases hrefusal : seen.refusal? id offset length with
  | none =>
      rw [hrefusal] at hadmitted
      cases hadmitted
  | some cause =>
      rw [hrefusal] at hadmitted
      cases hadmitted
      exact ⟨cause, rfl, rfl⟩

theorem answer_read (h : seen.Describes host) (id : TreeId) (offset length : Nat) :
    host.answer (.read id offset length) = seen.readAnswer id offset length := by
  refine Host.outcome_eq_of_ends ?_
  rw [MemoryCall.run, Host.ends_bind]
  refine Host.ends_readRegion ?_ ?_
  · intro bytes hbytes hrange
    have hok : host.memory.checkTransfer id offset length = .ok () :=
      HostMemory.checkTransfer_eq_ok_iff.mpr ⟨bytes, hbytes, hrange⟩
    rw [Host.ends_pure, readAnswer, h.refusal?_eq_none hok, h.ofBytes_window hbytes hrange]
  · intro failure herror
    obtain ⟨cause, hrefusal, rfl⟩ := h.refusal?_eq_some (HostMemory.read_eq_error_iff.mp herror)
    rw [readAnswer, hrefusal]

theorem answer_write (h : seen.Describes host) (id : TreeId) (offset : Nat) (words : List Word) :
    host.answer (.write id offset words) = seen.writeAnswer id offset words := by
  refine Host.outcome_eq_of_ends ?_
  rw [MemoryCall.run, Host.ends_bind]
  refine Host.ends_writeRegion ?_ ?_
  · intro bytes hbytes hrange
    have hok : host.memory.checkTransfer id offset (words.length * wordBytes) = .ok () :=
      HostMemory.checkTransfer_eq_ok_iff.mpr ⟨bytes, hbytes, hrange⟩
    rw [Host.ends_pure, writeAnswer, h.refusal?_eq_none hok]
  · intro failure herror
    obtain ⟨cause, hrefusal, rfl⟩ := h.refusal?_eq_some (HostMemory.write_eq_error_iff.mp herror)
    rw [writeAnswer, hrefusal]

end Describes

end WordMemory

namespace Host

/-! ### Identities -/

/-- What any call keeps to. -/
structure Follows (host : Host) (answer : Outcome DeviceError MemoryAnswer) (left : Host) :
    Prop where
  limit : left.memory.limit = host.memory.limit
  nextId : host.nextId ≤ left.nextId
  /-- An identity is the next one that there is. -/
  drawn : ∀ id, answer = .ok (.identity id) → id = ⟨host.nextId⟩ ∧ left.nextId = host.nextId + 1
  /-- What is refused has changed nothing at all. -/
  refused : ∀ cause, answer = .error (.error cause) → left = host
  /-- What has failed in any way has changed nothing in the memory. -/
  failed : ∀ failure, answer = .error failure → left.memory = host.memory

theorem follows_self {host : Host} {failure : Failure DeviceError} :
    host.Follows (.error failure) host :=
  ⟨rfl, Nat.le_refl _, by simp, by simp, by simp⟩

theorem called_follows (host : Host) (call : MemoryCall) :
    host.Follows (host.answer call) (host.called call) := by
  refine outcome_of_ends (P := host.Follows) ?_
  cases call with
  | allocate size =>
      rw [MemoryCall.run, ends_bind]
      refine ends_allocate ?_ ?_ ?_
      · intro padded _ _
        exact ⟨rfl, Nat.le_succ _, by simp, by simp, by simp⟩
      · intro failure _
        exact follows_self
      · intro padded _ _
        exact ⟨rfl, Nat.le_succ _, by simp, by simp, by simp⟩
  | read id offset length =>
      rw [MemoryCall.run, ends_bind]
      refine ends_readRegion ?_ ?_
      · intro bytes _ _
        exact ⟨rfl, Nat.le_refl _, by simp, by simp, by simp⟩
      · intro failure _
        exact follows_self
  | write id offset words =>
      rw [MemoryCall.run, ends_bind]
      refine ends_writeRegion ?_ ?_
      · intro bytes _ _
        exact ⟨rfl, Nat.le_refl _, by simp, by simp, by simp⟩
      · intro failure _
        exact follows_self
  | drawId =>
      rw [MemoryCall.run, ends_bind, ends_drawId]
      exact ⟨rfl, Nat.le_succ _, by simp, by simp, by simp⟩

theorem limit_calledAll (calls : List MemoryCall) :
    ∀ host : Host, (host.calledAll calls).memory.limit = host.memory.limit := by
  induction calls with
  | nil => exact fun _ => rfl
  | cons call rest ih =>
      intro host
      exact (ih (host.called call)).trans (host.called_follows call).limit

theorem nextId_le_calledAll (calls : List MemoryCall) :
    ∀ host : Host, host.nextId ≤ (host.calledAll calls).nextId := by
  induction calls with
  | nil => exact fun host => Nat.le_refl _
  | cons call rest ih =>
      intro host
      exact Nat.le_trans (host.called_follows call).nextId (ih (host.called call))

/-- Whatever identity a run has answered is one that is not drawn again. -/
theorem number_lt_of_mem_transcript {id : TreeId} (calls : List MemoryCall) :
    ∀ {host : Host}, ∀ event ∈ host.transcript calls, event.2 = .ok (.identity id) →
      id.number < (host.calledAll calls).nextId := by
  induction calls with
  | nil =>
      intro host event hmem
      cases hmem
  | cons call rest ih =>
      intro host event hmem hid
      rcases List.mem_cons.mp hmem with rfl | hmem
      · obtain ⟨rfl, hnext⟩ := (host.called_follows call).drawn id hid
        have hdrawn : host.nextId < (host.called call).nextId := by omega
        exact Nat.lt_of_lt_of_le hdrawn (nextId_le_calledAll rest (host.called call))
      · exact ih event hmem hid

/-! ### Allocation -/

theorem answer_allocate_of_exceeds {host : Host} {size limit : Nat}
    (hlimit : host.memory.limit = some limit) (hbound : HostMemory.wholeWords size < Size.bound)
    (hlt : limit < HostMemory.wholeWords size) :
    host.answer (.allocate size)
      = .error (.error (.memoryExhaustion (HostMemory.wholeWords size) limit)) := by
  have hpadded := HostMemory.paddedSize_of_lt hbound
  have hnot : ∀ padded, host.memory.grantedSize size ≠ .ok padded := by
    intro padded hgranted
    obtain ⟨hsame, hle⟩ := HostMemory.grantedSize_eq_ok_iff.mp hgranted
    rw [hpadded] at hsame
    cases hsame
    exact absurd (hle limit hlimit) (Nat.not_le.mpr hlt)
  refine outcome_eq_of_ends ?_
  rw [MemoryCall.run, ends_bind]
  refine ends_allocate ?_ ?_ ?_
  · intro padded hgranted _
    exact absurd hgranted (hnot padded)
  · intro failure hrefused
    obtain ⟨found, hfound, -, rfl⟩ := HostMemory.grantedSize_eq_error hpadded hrefused
    cases hlimit.symm.trans hfound
    rfl
  · intro padded hgranted _
    exact absurd hgranted (hnot padded)

/-- An allocation within the limit succeeds if the region can be one object. -/
theorem answer_allocate_of_within {host : Host} {size : Nat}
    (hbound : HostMemory.wholeWords size < Size.bound)
    (hwithin : ∀ limit, host.memory.limit = some limit → HostMemory.wholeWords size ≤ limit) :
    host.answer (.allocate size) =
      if HostMemory.wholeWords size ≤ Size.objectLimit then .ok (.identity ⟨host.nextId⟩)
      else .error (.fault .capacity) := by
  have hgranted : host.memory.grantedSize size = .ok (HostMemory.wholeWords size) :=
    HostMemory.grantedSize_eq_ok_iff.mpr ⟨HostMemory.paddedSize_of_lt hbound, hwithin⟩
  refine outcome_eq_of_ends ?_
  rw [MemoryCall.run, ends_bind]
  exact ends_allocate_of_granted hgranted (fun hobject => if_pos hobject)
    fun hbeyond => if_neg (Nat.not_le.mpr hbeyond)

/-! ### A run -/

/-- After any run of calls on a new memory, its regions are those that the run tells of, and the
answer to the next call is the one that a memory of words would give: an allocation is refused
exactly if it exceeds the limit; one that is not adds a region of zeros, under an identity that is
not among the answers so far, exactly if the region can be one object, and is a fault if it cannot;
transfers are refused for the first reason there is, and read and write the words at their
positions.  What fails leaves the memory as it is, and what is refused leaves everything as it
is. -/
theorem answers_as_told (limit : Option Nat) (nextId : Nat) (calls : List MemoryCall) :
    let new := bare limit nextId
    let host := new.calledAll calls
    let seen := WordMemory.told (new.transcript calls)
    (∀ id, host.memory.region? id = seen.bytes? id) ∧
    (∀ size, HostMemory.wholeWords size < Size.bound →
      (∀ max, limit = some max → max < HostMemory.wholeWords size →
        host.answer (.allocate size)
          = .error (.error (.memoryExhaustion (HostMemory.wholeWords size) max))) ∧
      ((∀ max, limit = some max → HostMemory.wholeWords size ≤ max) →
        HostMemory.wholeWords size ≤ Size.objectLimit →
        ∃ id, host.answer (.allocate size) = .ok (.identity id) ∧ nextId ≤ id.number ∧
          (∀ event ∈ new.transcript calls, event.2 ≠ .ok (.identity id)) ∧
          (host.called (.allocate size)).memory.region? id
            = some (List.replicate (HostMemory.wholeWords size) 0)) ∧
      ((∀ max, limit = some max → HostMemory.wholeWords size ≤ max) →
        Size.objectLimit < HostMemory.wholeWords size →
        host.answer (.allocate size) = .error (.fault .capacity))) ∧
    (∀ id offset length,
      host.answer (.read id offset length) = seen.readAnswer id offset length) ∧
    (∀ id offset words,
      host.answer (.write id offset words) = seen.writeAnswer id offset words) ∧
    (∀ call failure, host.answer call = .error failure →
      (host.called call).memory = host.memory) ∧
    ∀ call cause, host.answer call = .error (.error cause) → host.called call = host := by
  intro new host seen
  have hdescribes : seen.Describes host :=
    (WordMemory.Describes.start limit nextId).calledAll calls
  have hlimit : host.memory.limit = limit := limit_calledAll calls new
  refine ⟨hdescribes.regions, ?_, hdescribes.answer_read, hdescribes.answer_write,
    fun call => (host.called_follows call).failed, fun call => (host.called_follows call).refused⟩
  intro size hbound
  refine ⟨?_, ?_, ?_⟩
  · intro max hmax hlt
    exact answer_allocate_of_exceeds (hlimit.trans hmax) hbound hlt
  · intro hwithin hobject
    have hanswer := answer_allocate_of_within hbound (hlimit.symm ▸ hwithin)
    rw [if_pos hobject] at hanswer
    have hcalled := hdescribes.called (.allocate size)
    rw [hanswer] at hcalled
    refine ⟨_, hanswer, nextId_le_calledAll calls new, ?_, ?_⟩
    · intro event hmem hid
      exact Nat.lt_irrefl _ (number_lt_of_mem_transcript calls event hmem hid)
    · rw [hcalled.regions, ← hdescribes.bytes?_allocated (HostMemory.wholeWords_mod size)]
      rfl
  · intro hwithin hbeyond
    rw [answer_allocate_of_within hbound (hlimit.symm ▸ hwithin),
      if_neg (Nat.not_le.mpr hbeyond)]

/-- Overlapping writes, and an identity drawn in between. -/
theorem answers_as_told_overlapping :
    let host := (bare (some 8) 0).calledAll
      [.allocate 5, .drawId, .write ⟨0⟩ 0 [1, 2], .write ⟨0⟩ 4 [3]]
    host.answer (.allocate 9) = .error (.error (.memoryExhaustion 12 8)) ∧
      (∃ id, host.answer (.allocate 6) = .ok (.identity id)) ∧
      host.answer (.read ⟨0⟩ 0 8) = .ok (.lanes (Lanes.ofWords [1, 3])) := by
  intro host
  obtain ⟨-, hallocate, hread, -⟩ := answers_as_told (some 8) 0
    [.allocate 5, .drawId, .write ⟨0⟩ 0 [1, 2], .write ⟨0⟩ 4 [3]]
  refine ⟨(hallocate 9 (by decide)).1 8 rfl (by decide), ?_, (hread ⟨0⟩ 0 8).trans (by rfl)⟩
  obtain ⟨id, hid, -⟩ := (hallocate 6 (by decide)).2.1
    (fun max hmax => by cases hmax; decide) (by decide)
  exact ⟨id, hid⟩

/-- Without a limit, what does not fit in one object is still not allocated. -/
theorem answer_allocate_beyond_object :
    HostMemory.wholeWords 9223372036854775808 < Size.bound ∧
      (bare none 0).memory.limit = none ∧
      ¬ ∃ id, (bare none 0).answer (.allocate 9223372036854775808) = .ok (.identity id) := by
  have hbound : HostMemory.wholeWords 9223372036854775808 < Size.bound := by decide
  refine ⟨hbound, rfl, ?_⟩
  intro h
  obtain ⟨id, hid⟩ := h
  have hwithin : ∀ limit, (bare none 0).memory.limit = some limit →
      HostMemory.wholeWords 9223372036854775808 ≤ limit := fun _ hlimit => nomatch hlimit
  have hbeyond : ¬ HostMemory.wholeWords 9223372036854775808 ≤ Size.objectLimit := by decide
  rw [answer_allocate_of_within hbound hwithin, if_neg hbeyond] at hid
  cases hid

end Host

end FieldStore
