/-
Buffers of a graphics device agree with the host memory.

Of the graphics API only this is relied on: a new buffer is filled with zeros, and writes, copies
and mapped reads act on buffers as on plain bytes, in the order in which they were submitted.  The
same creations, writes and reads are then carried out on a device and on the host memory.  At every
point the k-th buffer holds the bytes of the k-th region.  Creating, writing and reading each keep
this, the read although it goes by a staging buffer, because that is none of the buffers there were.
So every read answers the same words on either side.
-/
import FieldStore.Device.Buffer
import FieldStore.Proofs.Device.WordMemory

namespace FieldStore

/-! ### What is relied on -/

section Laws

variable {σ β : Type} [DecidableEq β]

/-- Buffers with one of them added or replaced. -/
def withBuffer (view : β → Option Buffer) (buffer : β) (held : Buffer) : β → Option Buffer :=
  fun other => if other = buffer then some held else view other

theorem withBuffer_self (view : β → Option Buffer) (buffer : β) (held : Buffer) :
    withBuffer view buffer held buffer = some held := if_pos rfl

theorem withBuffer_of_ne {view : β → Option Buffer} {buffer other : β} {held : Buffer}
    (h : other ≠ buffer) : withBuffer view buffer held other = view other := if_neg h

/-- The device acts on buffers as on plain bytes.  `view` tells what is in them once everything
queued so far has been carried out. -/
structure GraphicsApi.PlainBytes (api : GraphicsApi σ β) (view : σ → β → Option Buffer) :
    Prop where
  /-- A new buffer of whole words is filled with zeros. -/
  created : ∀ {size : Nat} {label : String} {usage : List BufferUsage} {state state' : σ}
    {buffer : β}, 0 < size → size % wordBytes = 0 →
      api.createBuffer size label usage state = (buffer, state') →
      view state buffer = none ∧
        view state' = withBuffer (view state) buffer (Buffer.zeroed size label usage)
  /-- Whole words that lie within a buffer are written into it. -/
  written : ∀ {buffer : β} {offset : Nat} {bytes : List Byte} {state : σ} {held held' : Buffer},
    view state buffer = some held → .copyDestination ∈ held.usage →
      offset % wordBytes = 0 → bytes.length % wordBytes = 0 →
      held.write? offset bytes = some held' →
        ∃ state', api.writeBuffer buffer offset bytes state = some state' ∧
          view state' = withBuffer (view state) buffer held'
  /-- What has been queued is carried out. -/
  submitted : ∀ state, ∃ state', api.submit [] state = some state' ∧ view state' = view state
  /-- Whole words of one buffer are copied into another one. -/
  copied : ∀ (command : BufferCopy β) {bytes : List Byte} {state : σ}
    {source target target' : Buffer},
    view state command.source = some source → .copySource ∈ source.usage →
      view state command.target = some target → .copyDestination ∈ target.usage →
      command.source ≠ command.target → command.sourceOffset % wordBytes = 0 →
      command.targetOffset % wordBytes = 0 → command.length % wordBytes = 0 →
      source.range? command.sourceOffset command.length = some bytes →
      target.write? command.targetOffset bytes = some target' →
        ∃ state', api.submit [command] state = some state' ∧
          view state' = withBuffer (view state) command.target target'
  /-- A buffer is read as it is. -/
  mapped : ∀ {buffer : β} {state : σ} {held : Buffer}, view state buffer = some held →
    .mapRead ∈ held.usage →
      ∃ state', api.mapRead buffer state = some (held.contents, state') ∧
        view state' = view state

namespace GraphicsApi.PlainBytes

variable {api : GraphicsApi σ β} {view : σ → β → Option Buffer} {state : σ} {buffer : β}
  {held : Buffer} {offset length : Nat}

theorem write (h : api.PlainBytes view) {words : List Word} (hheld : view state buffer = some held)
    (htarget : .copyDestination ∈ held.usage) (hoffset : offset % wordBytes = 0)
    (hfits : offset + words.length * wordBytes ≤ held.size) :
    ∃ state', api.write buffer offset words state = some state' ∧
      view state' = withBuffer (view state) buffer
        { held with contents := overwrite offset (bytesOfWords words) held.contents } := by
  have hbytes : (bytesOfWords words).length % wordBytes = 0 := by
    rw [length_bytesOfWords, Nat.mul_mod_left]
  have hwrite : held.write? offset (bytesOfWords words)
      = some { held with contents := overwrite offset (bytesOfWords words) held.contents } := by
    rw [Buffer.write?, length_bytesOfWords, if_pos hfits]
  obtain ⟨queued, hqueue, hview⟩ := h.written hheld htarget hoffset hbytes hwrite
  obtain ⟨state', hsubmit, hview'⟩ := h.submitted queued
  refine ⟨state', ?_, hview'.trans hview⟩
  rw [GraphicsApi.write, hqueue]
  exact hsubmit

/-- A read answers with the bytes of its range.  The staging buffer is a new one, so that all other
buffers are what they were. -/
theorem read (h : api.PlainBytes view) (hheld : view state buffer = some held)
    (hsource : .copySource ∈ held.usage) (hoffset : offset % wordBytes = 0)
    (hlength : length % wordBytes = 0) (hfits : offset + length ≤ held.size) :
    ∃ state', api.read buffer offset length state
        = some (Lanes.ofBytes (window offset length held.contents), state') ∧
      ∀ other found, view state other = some found → view state' other = some found := by
  by_cases hzero : length = 0
  · subst hzero
    refine ⟨state, ?_, fun _ _ hfound => hfound⟩
    rw [GraphicsApi.read, if_pos rfl, window, List.take_zero]
    rfl
  · rcases hcreate : api.createBuffer length "Staging Buffer" [.mapRead, .copyDestination] state
      with ⟨staging, created⟩
    obtain ⟨hnew, hview⟩ := h.created (Nat.pos_of_ne_zero hzero) hlength hcreate
    have hapart : ∀ other found, view state other = some found → other ≠ staging := by
      rintro other found hfound rfl
      rw [hnew] at hfound
      cases hfound
    have hstaged : view created staging
        = some (Buffer.zeroed length "Staging Buffer" [.mapRead, .copyDestination]) := by
      rw [hview, withBuffer_self]
    have hcopied : view created buffer = some held := by
      rw [hview, withBuffer_of_ne (hapart buffer held hheld), hheld]
    have hrange : held.range? offset length = some (window offset length held.contents) :=
      if_pos hfits
    have hwindow : (window offset length held.contents).length = length := length_window hfits
    have hwrite : (Buffer.zeroed length "Staging Buffer" [.mapRead, .copyDestination]).write? 0
          (window offset length held.contents)
        = some ⟨"Staging Buffer", [.mapRead, .copyDestination],
            window offset length held.contents⟩ := by
      have hsize : (List.replicate length (0 : Byte)).length = length := List.length_replicate
      rw [Buffer.write?, Buffer.size, Buffer.zeroed, hwindow, hsize, if_pos (by omega),
        overwrite_whole (by rw [hwindow, hsize])]
    obtain ⟨submitted, hsubmit, hview'⟩ := h.copied ⟨buffer, offset, staging, 0, length⟩ hcopied
      hsource hstaged (by simp [Buffer.zeroed]) (hapart buffer held hheld) hoffset rfl hlength
      hrange hwrite
    have hfilled : view submitted staging = some ⟨"Staging Buffer", [.mapRead, .copyDestination],
        window offset length held.contents⟩ := by
      rw [hview', withBuffer_self]
    obtain ⟨state', hmap, hview''⟩ := h.mapped hfilled (by simp)
    refine ⟨state', ?_, fun other found hfound => ?_⟩
    · rw [GraphicsApi.read, if_neg hzero]
      simp only [hcreate, hsubmit, hmap, bind, Option.bind, pure]
    · have hne := hapart other found hfound
      rw [hview'', hview', withBuffer_of_ne hne, hview, withBuffer_of_ne hne, hfound]

end GraphicsApi.PlainBytes

end Laws

/-! ### Buffers of bytes -/

namespace Graphics

/-- The buffer of a number. -/
def view (graphics : Graphics) (index : Nat) : Option Buffer := graphics.buffers[index]?

theorem view_create (size : Nat) (label : String) (usage : List BufferUsage)
    (graphics : Graphics) :
    graphics.view graphics.buffers.length = none ∧
      (⟨graphics.buffers ++ [Buffer.zeroed size label usage]⟩ : Graphics).view
        = withBuffer graphics.view graphics.buffers.length (Buffer.zeroed size label usage) := by
  refine ⟨List.getElem?_eq_none (Nat.le_refl _), funext fun index => ?_⟩
  rw [view, withBuffer, List.getElem?_append]
  rcases Nat.lt_trichotomy index graphics.buffers.length with hlt | rfl | hgt
  · rw [if_pos hlt, if_neg (Nat.ne_of_lt hlt), view]
  · rw [if_neg (Nat.lt_irrefl _), if_pos rfl, Nat.sub_self, List.getElem?_cons_zero]
  · rw [if_neg (Nat.not_lt.mpr (Nat.le_of_lt hgt)), if_neg (Nat.ne_of_gt hgt), view,
      List.getElem?_eq_none (Nat.le_of_lt hgt), List.getElem?_eq_none (by simp; omega)]

theorem view_store {graphics : Graphics} {index offset : Nat} {bytes : List Byte}
    {held held' : Buffer} (hview : graphics.view index = some held)
    (hwrite : held.write? offset bytes = some held') :
    ∃ graphics', graphics.store index offset bytes = some graphics' ∧
      graphics'.view = withBuffer graphics.view index held' := by
  unfold store
  by_cases hempty : bytes.isEmpty = true
  · rw [if_pos hempty]
    refine ⟨graphics, rfl, funext fun other => ?_⟩
    -- Nothing is written, so the buffer is what it was.
    have hsame : held' = held := by
      rw [List.isEmpty_iff.mp hempty, Buffer.write?] at hwrite
      by_cases hfits : offset + ([] : List Byte).length ≤ held.size
      · rw [if_pos hfits] at hwrite
        cases hwrite
        rw [overwrite, List.append_nil, List.length_nil, Nat.add_zero, List.take_append_drop]
      · rw [if_neg hfits] at hwrite
        cases hwrite
    rw [hsame, withBuffer]
    by_cases hother : other = index
    · rw [if_pos hother, hother, hview]
    · rw [if_neg hother]
  · rw [if_neg hempty]
    rw [view] at hview
    obtain ⟨hlt, -⟩ := List.getElem?_eq_some_iff.mp hview
    refine ⟨⟨graphics.buffers.set index held'⟩, ?_, funext fun other => ?_⟩
    · simp only [hview, hwrite, bind, Option.bind, pure]
    · rw [view, withBuffer, List.getElem?_set, if_pos hlt]
      by_cases hother : other = index
      · rw [if_pos hother, if_pos hother.symm]
      · rw [if_neg hother, if_neg (Ne.symm hother), view]

/-- The device of buffers of bytes acts on plain bytes. -/
theorem plainBytes : api.PlainBytes view where
  created := by
    intro size label usage state state' buffer _ _ hcreate
    cases hcreate
    exact view_create size label usage state
  written := by
    intro buffer offset bytes state held held' hview _ _ _ hwrite
    exact view_store hview hwrite
  submitted := fun state => ⟨state, rfl, rfl⟩
  copied := by
    intro command bytes state source target target' hsource _ htarget _ _ _ _ _ hrange hwrite
    obtain ⟨state', hstore, hview⟩ := view_store htarget hwrite
    refine ⟨state', ?_, hview⟩
    have hcopy : state.copy command = some state' := by
      rw [view] at hsource
      simp only [copy, hsource, hrange, bind, Option.bind]
      exact hstore
    simp only [api, List.foldlM_cons, List.foldlM_nil, hcopy, bind, Option.bind, pure]
  mapped := by
    intro buffer state held hview _
    refine ⟨state, ?_, rfl⟩
    rw [view] at hview
    simp only [api, map, hview, bind, Option.bind, pure]

end Graphics

/-! ### Calls -/

/-- A call on a device.  Buffers are known by number, in the order of their creation. -/
inductive BufferCall
  | create (size : Nat) (label : String)
  | write (number offset : Nat) (words : List Word)
  | read (number offset length : Nat)

namespace BufferCall

variable {σ β : Type}

/-- Carries out a call on a device, given the buffers there are.  What it reads is a list, empty
unless the call is a read. -/
def onDevice (api : GraphicsApi σ β) (buffers : List β) (state : σ) :
    BufferCall → Option (List Lanes × List β × σ)
  | create size label =>
      let (buffer, state) := api.createStorageBuffer size label state
      some ([], buffers ++ [buffer], state)
  | write number offset words => do
      let buffer ← buffers[number]?
      let state ← api.write buffer offset words state
      return ([], buffers, state)
  | read number offset length => do
      let buffer ← buffers[number]?
      let (lanes, state) ← api.read buffer offset length state
      return ([lanes], buffers, state)

/-- Carries out a call on the host memory, where regions stand for the buffers. -/
def onHost (ids : List TreeId) : BufferCall → HostM DeviceError (List Lanes × List TreeId)
  | create size _ => do
      let id ← Host.allocate size
      return ([], ids ++ [id])
  | write number offset words =>
      match ids[number]? with
      | some id => do
          Host.writeRegion id offset words
          return ([], ids)
      | none => throw (.fault .outOfBounds)
  | read number offset length =>
      match ids[number]? with
      | some id => do
          let lanes ← Host.readRegion id offset length
          return ([lanes], ids)
      | none => throw (.fault .outOfBounds)

/-- Whether a call is right, given the sizes of the buffers and the sizes that are granted. -/
def Right (grants : Nat → Prop) (sizes : List Nat) : BufferCall → Prop
  | create size _ => 0 < size ∧ size % wordBytes = 0 ∧ grants size
  | write number offset words => ∃ size, sizes[number]? = some size ∧ offset % wordBytes = 0 ∧
      offset + words.length * wordBytes ≤ size
  | read number offset length => ∃ size, sizes[number]? = some size ∧ offset % wordBytes = 0 ∧
      length % wordBytes = 0 ∧ offset + length ≤ size

/-- The sizes of the buffers after a call. -/
def sizesAfter (sizes : List Nat) : BufferCall → List Nat
  | create size _ => sizes ++ [size]
  | write _ _ _ | read _ _ _ => sizes

/-- Whether all calls of a run are right. -/
def AllRight (grants : Nat → Prop) : List Nat → List BufferCall → Prop
  | _, [] => True
  | sizes, call :: rest => call.Right grants sizes ∧ AllRight grants (call.sizesAfter sizes) rest

end BufferCall

/-- What a run reads from a device. -/
def GraphicsApi.readings {σ β : Type} (api : GraphicsApi σ β) :
    List BufferCall → List β → σ → Option (List Lanes)
  | [], _, _ => some []
  | call :: rest, buffers, state => do
      let (lanes, buffers, state) ← call.onDevice api buffers state
      let later ← api.readings rest buffers state
      return lanes ++ later

/-- What a run reads from the host memory. -/
def Host.readings : List BufferCall → List TreeId → HostM DeviceError (List Lanes)
  | [], _ => return []
  | call :: rest, ids => do
      let (lanes, ids) ← call.onHost ids
      let later ← Host.readings rest ids
      return lanes ++ later

/-! ### Agreement -/

section Agreement

variable {σ β : Type} {view : β → Option Buffer} {buffers : List β}
  {ids : List TreeId} {sizes : List Nat} {host host' : Host}

/-- A storage buffer and a region hold the same bytes, as many as the size says. -/
structure Mirror (view : β → Option Buffer) (host : Host) (buffer : β) (id : TreeId)
    (size : Nat) : Prop where
  same : ∃ held, view buffer = some held ∧ .copySource ∈ held.usage ∧
    .copyDestination ∈ held.usage ∧ host.memory.region? id = some held.contents ∧
    held.size = size
  object : size ≤ Size.objectLimit

/-- The buffers of a device and the regions of a host hold the same bytes, number by number. -/
structure Mirrors (view : β → Option Buffer) (buffers : List β) (ids : List TreeId)
    (sizes : List Nat) (host : Host) : Prop where
  countBuffers : buffers.length = sizes.length
  countIds : ids.length = sizes.length
  distinctBuffers : buffers.Nodup
  distinctIds : ids.Nodup
  mirror : ∀ (number : Nat) (buffer : β) (id : TreeId) (size : Nat),
    buffers[number]? = some buffer → ids[number]? = some id → sizes[number]? = some size →
      Mirror view host buffer id size
  /-- The identities of regions have been drawn. -/
  drawn : ∀ id bytes, host.memory.region? id = some bytes → id.number < host.nextId

namespace Mirrors

theorem start (view : β → Option Buffer) (limit : Option Nat) (nextId : Nat) :
    Mirrors view [] [] [] (Host.bare limit nextId) :=
  ⟨rfl, rfl, List.nodup_nil, List.nodup_nil, nofun, nofun⟩

/-- What is at a number on either side. -/
theorem exists_mirror (h : Mirrors view buffers ids sizes host) {number size : Nat}
    (hsize : sizes[number]? = some size) :
    ∃ buffer id, buffers[number]? = some buffer ∧ ids[number]? = some id ∧
      Mirror view host buffer id size := by
  obtain ⟨hlt, -⟩ := List.getElem?_eq_some_iff.mp hsize
  have hbuffer := List.getElem?_eq_getElem (h.countBuffers.symm ▸ hlt)
  have hid := List.getElem?_eq_getElem (h.countIds.symm ▸ hlt)
  exact ⟨_, _, hbuffer, hid, h.mirror number _ _ size hbuffer hid hsize⟩

/-- Both sides may change in what is neither a buffer nor a region of the run. -/
theorem of_same {view' : β → Option Buffer} (h : Mirrors view buffers ids sizes host)
    (hview : ∀ buffer held, view buffer = some held → view' buffer = some held)
    (hregions : host'.memory.regions = host.memory.regions) (hnext : host.nextId ≤ host'.nextId) :
    Mirrors view' buffers ids sizes host' := by
  have hregion : ∀ id, host'.memory.region? id = host.memory.region? id := by
    intro id
    rw [HostMemory.region?, hregions, HostMemory.region?]
  refine { h with mirror := ?_, drawn := ?_ }
  · intro number buffer id size hbuffer hid hsize
    obtain ⟨⟨held, hheld, hsource, htarget, hbytes, hlength⟩, hobject⟩ :=
      h.mirror number buffer id size hbuffer hid hsize
    exact ⟨⟨held, hview buffer held hheld, hsource, htarget, (hregion id).trans hbytes, hlength⟩,
      hobject⟩
  · intro id bytes hbytes
    exact Nat.lt_of_lt_of_le (h.drawn id bytes ((hregion id).symm.trans hbytes)) hnext

/-- A buffer that is new to the device is none of those of the run. -/
theorem ne_of_new (h : Mirrors view buffers ids sizes host) {buffer other : β}
    (hnew : view buffer = none) (hmem : other ∈ buffers) : other ≠ buffer := by
  rintro rfl
  obtain ⟨number, hlt, hother⟩ := List.getElem_of_mem hmem
  have hsize := List.getElem?_eq_getElem (h.countBuffers ▸ hlt)
  obtain ⟨buffer, id, hbuffer, -, ⟨held, hheld, -⟩, -⟩ := h.exists_mirror hsize
  rw [List.getElem?_eq_getElem hlt, hother] at hbuffer
  cases hbuffer
  rw [hnew] at hheld
  cases hheld

theorem number_lt (h : Mirrors view buffers ids sizes host) {id : TreeId} (hmem : id ∈ ids) :
    id.number < host.nextId := by
  obtain ⟨number, hlt, hid⟩ := List.getElem_of_mem hmem
  have hsize := List.getElem?_eq_getElem (h.countIds ▸ hlt)
  obtain ⟨buffer, id', -, hid', ⟨held, -, -, -, hbytes, -⟩, -⟩ := h.exists_mirror hsize
  rw [List.getElem?_eq_getElem hlt, hid] at hid'
  cases hid'
  exact h.drawn id _ hbytes

variable [DecidableEq β]

/-- One more buffer and one more region, both of zeros. -/
theorem created (h : Mirrors view buffers ids sizes host) {buffer : β} {size : Nat}
    {label : String} (hnew : view buffer = none) (hobject : size ≤ Size.objectLimit) :
    Mirrors (withBuffer view buffer
        (Buffer.zeroed size label [.copySource, .copyDestination, .storage]))
      (buffers ++ [buffer]) (ids ++ [⟨host.nextId⟩]) (sizes ++ [size])
      { host with
        memory := host.memory.withZeros ⟨host.nextId⟩ size
        nextId := host.nextId + 1 } := by
  have hfresh : host.memory.region? ⟨host.nextId⟩ = none := by
    cases hbytes : host.memory.region? ⟨host.nextId⟩ with
    | none => rfl
    | some bytes => exact absurd (h.drawn _ bytes hbytes) (Nat.lt_irrefl _)
  refine ⟨?_, ?_, ?_, ?_, ?_, ?_⟩
  · simp [h.countBuffers]
  · simp [h.countIds]
  · refine List.nodup_append.mpr ⟨h.distinctBuffers, by simp, ?_⟩
    intro other hmem found hfound
    rw [List.mem_singleton.mp hfound]
    exact h.ne_of_new hnew hmem
  · refine List.nodup_append.mpr ⟨h.distinctIds, by simp, ?_⟩
    rintro other hmem found hfound rfl
    have hlt := h.number_lt hmem
    rw [List.mem_singleton.mp hfound] at hlt
    exact Nat.lt_irrefl _ hlt
  · intro number found id size' hfound hid hsize
    rcases Nat.lt_or_ge number sizes.length with hlt | hge
    · rw [List.getElem?_append_left (h.countBuffers.symm ▸ hlt)] at hfound
      rw [List.getElem?_append_left (h.countIds.symm ▸ hlt)] at hid
      rw [List.getElem?_append_left hlt] at hsize
      obtain ⟨⟨held, hheld, hsource, htarget, hbytes, hlength⟩, hobject'⟩ :=
        h.mirror number found id size' hfound hid hsize
      have hne : found ≠ buffer := h.ne_of_new hnew (List.mem_of_getElem? hfound)
      refine ⟨⟨held, ?_, hsource, htarget, ?_, hlength⟩, hobject'⟩
      · rw [withBuffer_of_ne hne, hheld]
      · exact HostMemory.region?_withZeros_of_known hbytes
    · have hnumber : number = sizes.length := by
        obtain ⟨hlt, -⟩ := List.getElem?_eq_some_iff.mp hsize
        rw [List.length_append, List.length_singleton] at hlt
        omega
      rw [hnumber, ← h.countBuffers, List.getElem?_concat_length] at hfound
      rw [hnumber, ← h.countIds, List.getElem?_concat_length] at hid
      rw [hnumber, List.getElem?_concat_length] at hsize
      cases hfound
      cases hid
      cases hsize
      refine ⟨⟨_, withBuffer_self .., by simp [Buffer.zeroed], by simp [Buffer.zeroed],
        HostMemory.region?_withZeros_self hfresh, ?_⟩, hobject⟩
      rw [Buffer.size, Buffer.zeroed, List.length_replicate]
  · intro id bytes hbytes
    rcases HostMemory.known_of_region?_withZeros hbytes with rfl | hknown
    · exact Nat.lt_succ_self _
    · exact Nat.lt_succ_of_lt (h.drawn id bytes hknown)

/-- The same bytes written into a buffer and into its region. -/
theorem written (h : Mirrors view buffers ids sizes host) {number offset : Nat} {buffer : β}
    {id : TreeId} {held : Buffer} {words : List Word} (hbuffer : buffers[number]? = some buffer)
    (hid : ids[number]? = some id) (hheld : view buffer = some held)
    (hbytes : host.memory.region? id = some held.contents)
    (hfits : offset + words.length * wordBytes ≤ held.size) :
    Mirrors (withBuffer view buffer
        { held with contents := overwrite offset (bytesOfWords words) held.contents })
      buffers ids sizes
      { host with memory := host.memory.afterWrite id offset words held.contents } := by
  refine { h with mirror := ?_, drawn := ?_ }
  · intro number' found id' size hfound hid' hsize
    obtain ⟨⟨held', hheld', hsource, htarget, hbytes', hlength⟩, hobject⟩ :=
      h.mirror number' found id' size hfound hid' hsize
    refine ⟨?_, hobject⟩
    by_cases hnumber : number' = number
    · subst hnumber
      cases hbuffer.symm.trans hfound
      cases hid.symm.trans hid'
      cases hheld.symm.trans hheld'
      refine ⟨_, withBuffer_self .., hsource, htarget,
        HostMemory.region?_afterWrite_self hbytes, ?_⟩
      have hlen : offset + (bytesOfWords words).length ≤ held.contents.length := by
        rwa [length_bytesOfWords]
      rw [← hlength, Buffer.size, Buffer.size, length_overwrite hlen]
    · -- Buffers and regions of other numbers are others.
      have hne : found ≠ buffer := by
        rintro rfl
        obtain ⟨hlt, -⟩ := List.getElem?_eq_some_iff.mp hfound
        exact hnumber ((List.getElem?_inj hlt h.distinctBuffers).mp (hfound.trans hbuffer.symm))
      have hne' : id' ≠ id := by
        rintro rfl
        obtain ⟨hlt, -⟩ := List.getElem?_eq_some_iff.mp hid'
        exact hnumber ((List.getElem?_inj hlt h.distinctIds).mp (hid'.trans hid.symm))
      refine ⟨held', ?_, hsource, htarget, ?_, hlength⟩
      · rw [withBuffer_of_ne hne, hheld']
      · rw [HostMemory.region?_afterWrite_of_ne hne', hbytes']
  · intro other bytes hother
    by_cases heq : other = id
    · rw [heq]
      exact h.drawn id _ hbytes
    · rw [HostMemory.region?_afterWrite_of_ne heq] at hother
      exact h.drawn other bytes hother

/-- **One call** ends well on either side, reads the same and keeps the two in agreement. -/
theorem step {api : GraphicsApi σ β} {view : σ → β → Option Buffer} {state : σ} {call : BufferCall}
    (hplain : api.PlainBytes view) (h : Mirrors (view state) buffers ids sizes host)
    (hright : call.Right host.memory.Grants sizes) :
    ∃ lanes buffers' state', call.onDevice api buffers state = some (lanes, buffers', state') ∧
      Host.Ends (call.onHost ids) host
        (fun answer host' => answer.1 = lanes ∧ host'.memory.limit = host.memory.limit ∧
          Mirrors (view state') buffers' answer.2 (call.sizesAfter sizes) host')
        (fun _ _ => False) := by
  cases call with
  | create size label =>
      obtain ⟨hpos, haligned, hlimit, hobject⟩ := hright
      rcases hcreate : api.createStorageBuffer size label state with ⟨buffer, state'⟩
      obtain ⟨hnew, hview⟩ := hplain.created hpos haligned hcreate
      have hgranted : host.memory.grantedSize size = .ok size :=
        HostMemory.grantedSize_eq_ok_iff.mpr
          ⟨HostMemory.paddedSize_of_aligned hpos haligned, hlimit⟩
      refine ⟨[], buffers ++ [buffer], state', ?_, ?_⟩
      · rw [BufferCall.onDevice, hcreate]
      · rw [BufferCall.onHost, Host.ends_bind]
        refine Host.ends_allocate_of_granted hgranted (fun _ => ⟨rfl, rfl, ?_⟩)
          fun hbeyond => Nat.not_le.mpr hbeyond hobject
        rw [hview]
        exact h.created hnew hobject
  | write number offset words =>
      obtain ⟨size, hsize, hoffset, hfits⟩ := hright
      obtain ⟨buffer, id, hbuffer, hid, ⟨held, hheld, -, htarget, hbytes, rfl⟩, hobject⟩ :=
        h.exists_mirror hsize
      obtain ⟨state', hwrite, hview⟩ := hplain.write hheld htarget hoffset hfits
      have hrange : checkRange offset (words.length * wordBytes) held.contents.length = .ok () := by
        refine checkRange_eq_ok_iff.mpr ⟨hoffset, Nat.mul_mod_left .., ?_, hfits⟩
        exact Nat.lt_of_le_of_lt (Nat.le_trans hfits hobject) (by decide)
      refine ⟨[], buffers, state', ?_, ?_⟩
      · simp only [BufferCall.onDevice, hbuffer, hwrite, bind, Option.bind, pure]
      · simp only [BufferCall.onHost, hid]
        rw [Host.ends_bind]
        refine Host.ends_writeRegion_of_range hbytes hrange ⟨rfl, rfl, ?_⟩
        rw [hview]
        exact h.written hbuffer hid hheld hbytes hfits
  | read number offset length =>
      obtain ⟨size, hsize, hoffset, hlength, hfits⟩ := hright
      obtain ⟨buffer, id, hbuffer, hid, ⟨held, hheld, hsource, -, hbytes, rfl⟩, hobject⟩ :=
        h.exists_mirror hsize
      obtain ⟨state', hread, hview⟩ := hplain.read hheld hsource hoffset hlength hfits
      have hrange : checkRange offset length held.contents.length = .ok () := by
        refine checkRange_eq_ok_iff.mpr ⟨hoffset, hlength, ?_, hfits⟩
        exact Nat.lt_of_le_of_lt (Nat.le_trans hfits hobject) (by decide)
      refine ⟨[Lanes.ofBytes (window offset length held.contents)], buffers, state', ?_, ?_⟩
      · simp only [BufferCall.onDevice, hbuffer, hread, bind, Option.bind, pure]
      · simp only [BufferCall.onHost, hid]
        rw [Host.ends_bind]
        exact Host.ends_readRegion_of_range hbytes hrange
          ⟨rfl, rfl, h.of_same hview rfl (Nat.le_refl _)⟩

/-- The induction is on the run, from any two states that agree. -/
theorem run {api : GraphicsApi σ β} {view : σ → β → Option Buffer} (hplain : api.PlainBytes view)
    (calls : List BufferCall) :
    ∀ {state : σ} {buffers : List β} {ids : List TreeId} {sizes : List Nat} {host : Host},
      Mirrors (view state) buffers ids sizes host →
        BufferCall.AllRight host.memory.Grants sizes calls →
          ∃ lanes, api.readings calls buffers state = some lanes ∧
            Host.Ends (Host.readings calls ids) host (fun found _ => found = lanes)
              (fun _ _ => False) := by
  induction calls with
  | nil =>
      intro state buffers ids sizes host _ _
      exact ⟨[], rfl, rfl⟩
  | cons call rest ih =>
      intro state buffers ids sizes host h hright
      obtain ⟨hfirst, hrest⟩ := hright
      obtain ⟨lanes, buffers', state', hdevice, hhost⟩ := step hplain h hfirst
      rcases Host.runs_of_ends hhost with
        ⟨answer, host', hrun, hsame, hlimit, hmirrors⟩ | ⟨_, _, _, hfalse⟩
      · have hgrants : host'.memory.Grants = host.memory.Grants := by
          funext size
          rw [HostMemory.Grants, HostMemory.Grants, hlimit]
        obtain ⟨later, hlater, hends⟩ := ih hmirrors (hgrants ▸ hrest)
        refine ⟨lanes ++ later, ?_, ?_⟩
        · simp only [GraphicsApi.readings, hdevice, hlater, bind, Option.bind, pure]
        · rw [Host.readings, Host.ends_bind]
          refine Host.ends_mono (Host.runs_eq_ok_iff.mp hrun) ?_ fun _ _ hfalse => hfalse
          rintro found left ⟨rfl, rfl⟩
          rw [Host.ends_bind]
          refine Host.ends_mono hends ?_ fun _ _ hfalse => hfalse
          rintro found' left' rfl
          rw [hsame, Host.ends_pure]
      · exact hfalse.elim

end Mirrors

end Agreement

/-- **Buffers and the host memory agree.**  Take any graphics API that acts on plain bytes, any run
of creations, writes and reads all of whose ranges are whole words within their buffers, and a new
host memory that grants regions of the sizes in question.  On both sides the run goes through, and
what is read is the same, word by word and in both views. -/
theorem readings_agree {σ β : Type} [DecidableEq β] (api : GraphicsApi σ β)
    (view : σ → β → Option Buffer) (hplain : api.PlainBytes view) (state : σ) (limit : Option Nat)
    (nextId : Nat) (calls : List BufferCall)
    (hright : BufferCall.AllRight (HostMemory.empty limit).Grants [] calls) :
    ∃ readings, api.readings calls [] state = some readings ∧
      (Host.runs (Host.readings calls []) (Host.bare limit nextId)).1 = .ok readings := by
  obtain ⟨readings, hdevice, hhost⟩ :=
    Mirrors.run hplain calls (Mirrors.start (view state) limit nextId) hright
  refine ⟨readings, hdevice, Host.outcome_eq_of_ends ?_⟩
  exact Host.ends_mono hhost (fun _ _ hfound => congrArg Except.ok hfound.symm)
    fun _ _ hfalse => hfalse.elim

/-- Two buffers of bytes, with writes that overlap and reads in between. -/
theorem readings_agree_overlapping :
    let calls : List BufferCall := [.create 12 "a", .write 0 0 [1, 2], .create 4 "b", .read 0 4 8,
      .write 0 4 [3, 4], .write 1 0 [5], .read 0 0 12, .read 1 0 0, .read 1 0 4]
    BufferCall.AllRight (HostMemory.empty (some 12)).Grants [] calls ∧
      Graphics.api.readings calls [] Graphics.empty
        = some [Lanes.ofWords [2, 0], Lanes.ofWords [1, 3, 4], Lanes.ofWords [],
          Lanes.ofWords [5]] ∧
      (Host.runs (Host.readings calls []) (Host.bare (some 12) 0)).1
        = .ok [Lanes.ofWords [2, 0], Lanes.ofWords [1, 3, 4], Lanes.ofWords [],
          Lanes.ofWords [5]] := by
  intro calls
  have hright : BufferCall.AllRight (HostMemory.empty (some 12)).Grants [] calls := by
    simp [calls, BufferCall.AllRight, BufferCall.Right, BufferCall.sizesAfter, HostMemory.Grants,
      HostMemory.empty, wordBytes, Size.objectLimit]
  have hread : Graphics.api.readings calls [] Graphics.empty
      = some [Lanes.ofWords [2, 0], Lanes.ofWords [1, 3, 4], Lanes.ofWords [],
        Lanes.ofWords [5]] := by rfl
  obtain ⟨readings, hdevice, hhost⟩ := readings_agree Graphics.api Graphics.view
    Graphics.plainBytes Graphics.empty (some 12) 0 calls hright
  cases hread.symm.trans hdevice
  exact ⟨hright, hread, hhost⟩

end FieldStore
