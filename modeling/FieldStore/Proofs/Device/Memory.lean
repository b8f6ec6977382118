/-
What the memory does to its regions.

Regions are found by identity.  A new region comes last and is found only under its own identity,
provided that no earlier one has it; a write replaces the bytes of one region by as many others.
Whether a transfer is possible depends on the range and on the size of the region alone.
-/
import FieldStore.Device.Memory
import FieldStore.Proofs.Machine.Bytes
import FieldStore.Proofs.Machine.Size

namespace FieldStore

theorem checkRange_eq_ok_iff {offset length size : Nat} :
    checkRange offset length size = .ok () ↔
      offset % wordBytes = 0 ∧ length % wordBytes = 0 ∧ offset + length < Size.bound ∧
        offset + length ≤ size := by
  unfold checkRange
  by_cases haligned : offset % wordBytes ≠ 0 ∨ length % wordBytes ≠ 0
  · rw [if_pos haligned]
    refine iff_of_false (by simp) ?_
    intro h
    obtain ⟨hoffset, hlength, -⟩ := h
    rcases haligned with h | h
    · exact h hoffset
    · exact h hlength
  · obtain ⟨hoffset, hlength⟩ := not_or.mp haligned
    rw [if_neg haligned]
    by_cases hfits : offset + length < Size.bound ∧ offset + length ≤ size
    · rw [if_pos hfits]
      exact iff_of_true rfl ⟨Decidable.not_not.mp hoffset, Decidable.not_not.mp hlength,
        hfits.1, hfits.2⟩
    · rw [if_neg hfits]
      exact iff_of_false (by simp) fun h => hfits h.2.2

/-- For an allocation that is one object, the end of a range is a sum of natural numbers. -/
theorem checkRange_of_lt (offset length : Nat) {size : Nat} (h : size < Size.bound) :
    checkRange offset length size =
      if offset % wordBytes ≠ 0 ∨ length % wordBytes ≠ 0 then
        .error (.error (.unaligned offset length))
      else if size < offset + length then .error (.error (.outOfRange offset length size))
      else .ok () := by
  unfold checkRange
  by_cases hbeyond : size < offset + length
  · have hno : ¬ (offset + length < Size.bound ∧ offset + length ≤ size) := by omega
    rw [if_neg hno, if_pos hbeyond]
  · have hfits : offset + length < Size.bound ∧ offset + length ≤ size := by omega
    rw [if_pos hfits, if_neg hbeyond]

/-- A range is refused for its alignment first and then for its end. -/
theorem checkRange_refuses {offset length size : Nat} {failure : Failure DeviceError}
    (hsize : size < Size.bound) (h : checkRange offset length size = .error failure) :
    ¬ (offset % wordBytes = 0 ∧ length % wordBytes = 0) ∧
        failure = .error (.unaligned offset length) ∨
      (offset % wordBytes = 0 ∧ length % wordBytes = 0) ∧ size < offset + length ∧
        failure = .error (.outOfRange offset length size) := by
  rw [checkRange_of_lt offset length hsize] at h
  by_cases haligned : offset % wordBytes = 0 ∧ length % wordBytes = 0
  · have hno : ¬ (offset % wordBytes ≠ 0 ∨ length % wordBytes ≠ 0) :=
      fun hc => hc.elim (· haligned.1) (· haligned.2)
    rw [if_neg hno] at h
    by_cases hbeyond : size < offset + length
    · rw [if_pos hbeyond] at h
      cases h
      exact Or.inr ⟨haligned, hbeyond, rfl⟩
    · rw [if_neg hbeyond] at h
      cases h
  · rw [if_pos (Decidable.not_and_iff_not_or_not.mp haligned)] at h
    cases h
    exact Or.inl ⟨haligned, rfl⟩

/-- A range is refused with an error, never with a fault. -/
theorem checkRange_eq_error {offset length size : Nat} {failure : Failure DeviceError}
    (h : checkRange offset length size = .error failure) : ∃ cause, failure = .error cause := by
  unfold checkRange at h
  by_cases haligned : offset % wordBytes ≠ 0 ∨ length % wordBytes ≠ 0
  · rw [if_pos haligned] at h
    cases h
    exact ⟨_, rfl⟩
  · rw [if_neg haligned] at h
    by_cases hfits : offset + length < Size.bound ∧ offset + length ≤ size
    · rw [if_pos hfits] at h
      cases h
    · rw [if_neg hfits] at h
      cases h
      exact ⟨_, rfl⟩

namespace HostMemory

variable {memory memory' : HostMemory} {id other : TreeId}

/-! ### Allocation -/

/-- A size of whole words, and not of none, is allocated as it is. -/
theorem paddedSize_of_aligned {size : Nat} (hpos : 0 < size) (haligned : size % wordBytes = 0) :
    paddedSize size = .ok size := by
  have hmax : max size wordBytes = size := by
    simp only [wordBytes] at haligned ⊢
    omega
  rw [paddedSize, hmax, Size.roundUp, if_pos haligned]

/-- The size of a region: what was asked for in whole words, and one word at least. -/
def wholeWords (size : Nat) : Nat := max wordBytes ((size + 3) / wordBytes * wordBytes)

theorem wholeWords_mod (size : Nat) : wholeWords size % wordBytes = 0 := by
  simp only [wholeWords, wordBytes]
  omega

theorem paddedSize_of_lt {size : Nat} (h : wholeWords size < Size.bound) :
    paddedSize size = .ok (wholeWords size) := by
  rw [paddedSize, Size.roundUp]
  by_cases haligned : max size wordBytes % wordBytes = 0
  · have hsame : max size wordBytes = wholeWords size := by
      simp only [wholeWords, wordBytes] at haligned ⊢
      omega
    rw [if_pos haligned, hsame]
  · have hsum : max size wordBytes + (wordBytes - max size wordBytes % wordBytes)
        = wholeWords size := by
      simp only [wholeWords, wordBytes] at haligned ⊢
      omega
    rw [if_neg haligned, Size.add, hsum, if_pos h]

theorem paddedSize_eq_ok {size padded : Nat} (h : paddedSize size = .ok padded) :
    padded = wholeWords size := by
  rw [paddedSize, Size.roundUp] at h
  by_cases haligned : max size wordBytes % wordBytes = 0
  · rw [if_pos haligned] at h
    cases h
    simp only [wholeWords, wordBytes] at haligned ⊢
    omega
  · rw [if_neg haligned] at h
    obtain ⟨rfl, -⟩ := Size.add_eq_ok_iff.mp h
    simp only [wholeWords, wordBytes] at haligned ⊢
    omega

theorem grantedSize_eq_ok_iff {size padded : Nat} :
    memory.grantedSize size = .ok padded ↔
      paddedSize size = .ok padded ∧ ∀ limit, memory.limit = some limit → padded ≤ limit := by
  rw [grantedSize, bind_eq_ok]
  cases hlimit : memory.limit with
  | none =>
      constructor
      · intro h
        obtain ⟨n, hn, heq⟩ := h
        cases heq
        exact ⟨hn, by simp⟩
      · intro h
        exact ⟨padded, h.1, rfl⟩
  | some limit =>
      constructor
      · intro h
        obtain ⟨n, hn, heq⟩ := h
        by_cases hlt : limit < n
        · simp only [if_pos hlt] at heq
          cases heq
        · simp only [if_neg hlt] at heq
          cases heq
          exact ⟨hn, by simpa using Nat.le_of_not_lt hlt⟩
      · intro h
        have hle : ¬ limit < padded := Nat.not_lt.mpr (h.2 limit rfl)
        exact ⟨padded, h.1, if_neg hle⟩

theorem grantedSize_eq_error {size padded : Nat} {failure : Failure DeviceError}
    (hpadded : paddedSize size = .ok padded) (h : memory.grantedSize size = .error failure) :
    ∃ limit, memory.limit = some limit ∧ limit < padded ∧
      failure = .error (.memoryExhaustion padded limit) := by
  simp only [grantedSize, hpadded, bind, Except.bind] at h
  cases hlimit : memory.limit with
  | none =>
      rw [hlimit] at h
      cases h
  | some limit =>
      simp only [hlimit] at h
      by_cases hlt : limit < padded
      · rw [if_pos hlt] at h
        cases h
        exact ⟨limit, rfl, hlt, rfl⟩
      · rw [if_neg hlt] at h
        cases h

/-- Whether a region of that many bytes, a whole number of words, is granted: it stays within the
limit of the memory and can be one object. -/
def Grants (memory : HostMemory) (size : Nat) : Prop :=
  (∀ limit, memory.limit = some limit → size ≤ limit) ∧ size ≤ Size.objectLimit

theorem Grants.of_le {size larger : Nat} (hle : size ≤ larger) (h : memory.Grants larger) :
    memory.Grants size :=
  ⟨fun limit hlimit => Nat.le_trans hle (h.1 limit hlimit), Nat.le_trans hle h.2⟩

/-- The memory with a region of zeros added. -/
def withZeros (memory : HostMemory) (id : TreeId) (size : Nat) : HostMemory :=
  { memory with regions := memory.regions ++ [(id, List.replicate size 0)] }

theorem place_eq_ok_iff {size : Nat} :
    memory.place id size = .ok memory' ↔
      size ≤ Size.objectLimit ∧ memory' = memory.withZeros id size := by
  rw [place, bind_eq_ok]
  simp only [Size.reserve_eq_ok_iff, Nat.one_mul]
  constructor
  · intro h
    obtain ⟨_, hle, heq⟩ := h
    cases heq
    exact ⟨hle, rfl⟩
  · intro h
    obtain ⟨hle, rfl⟩ := h
    exact ⟨(), hle, rfl⟩

theorem region?_withZeros_of_known {size : Nat} {bytes : List Byte}
    (h : memory.region? other = some bytes) :
    (memory.withZeros id size).region? other = some bytes := by
  rw [region?, withZeros, List.lookup_append]
  rw [region?] at h
  rw [h, Option.some_or]

theorem region?_withZeros_self {size : Nat} (h : memory.region? id = none) :
    (memory.withZeros id size).region? id = some (List.replicate size 0) := by
  rw [region?, withZeros, List.lookup_append]
  rw [region?] at h
  simp [h]

theorem region?_withZeros_of_ne {size : Nat} (h : other ≠ id) :
    (memory.withZeros id size).region? other = memory.region? other := by
  have hne : (other == id) = false := beq_eq_false_iff_ne.mpr h
  rw [region?, withZeros, List.lookup_append, List.lookup_cons, hne, region?, List.lookup_nil,
    Option.or_none]

/-- The regions of a memory are still known, with their sizes, when one more is added. -/
theorem size?_withZeros_of_known {size n : Nat} (h : memory.size? other = some n) :
    (memory.withZeros id size).size? other = some n := by
  obtain ⟨bytes, hbytes, hlen⟩ := Option.map_eq_some_iff.mp h
  rw [size?, region?_withZeros_of_known hbytes]
  exact congrArg some hlen

/-- No other region is found in it. -/
theorem known_of_region?_withZeros {size : Nat} {bytes : List Byte}
    (h : (memory.withZeros id size).region? other = some bytes) :
    other = id ∨ memory.region? other = some bytes := by
  by_cases heq : other = id
  · exact Or.inl heq
  · rw [region?_withZeros_of_ne heq] at h
    exact Or.inr h

/-! ### Transfers -/

/-- The memory after a read. -/
def afterRead (memory : HostMemory) (id : TreeId) (offset length : Nat) : HostMemory :=
  { memory with traffic := memory.traffic.read ⟨id, offset, length⟩ }

/-- The memory after a write into a region with the given bytes. -/
def afterWrite (memory : HostMemory) (id : TreeId) (offset : Nat) (words : List Word)
    (bytes : List Byte) : HostMemory :=
  { memory with
    regions := replace id (overwrite offset (bytesOfWords words) bytes) memory.regions
    traffic := memory.traffic.write ⟨id, offset, words.length * wordBytes⟩ }

theorem region_eq_ok_iff {bytes : List Byte} :
    memory.region id = .ok bytes ↔ memory.region? id = some bytes := by
  unfold region
  cases memory.region? id <;> simp

theorem read_eq_ok_iff {offset length : Nat} {lanes : Lanes} :
    memory.read id offset length = .ok (lanes, memory') ↔
      ∃ bytes, memory.region? id = some bytes ∧ checkRange offset length bytes.length = .ok () ∧
        lanes = Lanes.ofBytes (window offset length bytes) ∧
        memory' = memory.afterRead id offset length := by
  rw [read, bind_eq_ok]
  simp only [region_eq_ok_iff, bind_eq_ok]
  constructor
  · intro h
    obtain ⟨bytes, hbytes, ⟨⟩, hrange, heq⟩ := h
    cases heq
    exact ⟨bytes, hbytes, hrange, rfl, rfl⟩
  · intro h
    obtain ⟨bytes, hbytes, hrange, rfl, rfl⟩ := h
    exact ⟨bytes, hbytes, (), hrange, rfl⟩

theorem write_eq_ok_iff {offset : Nat} {words : List Word} :
    memory.write id offset words = .ok memory' ↔
      ∃ bytes, memory.region? id = some bytes ∧
        checkRange offset (words.length * wordBytes) bytes.length = .ok () ∧
        memory' = memory.afterWrite id offset words bytes := by
  rw [write, bind_eq_ok]
  simp only [region_eq_ok_iff, bind_eq_ok]
  constructor
  · intro h
    obtain ⟨bytes, hbytes, ⟨⟩, hrange, heq⟩ := h
    cases heq
    exact ⟨bytes, hbytes, hrange, rfl⟩
  · intro h
    obtain ⟨bytes, hbytes, hrange, rfl⟩ := h
    exact ⟨bytes, hbytes, (), hrange, rfl⟩

theorem region_eq_error {failure : Failure DeviceError} (h : memory.region id = .error failure) :
    ∃ cause, failure = .error cause := by
  unfold region at h
  cases hregion : memory.region? id with
  | some bytes =>
      rw [hregion] at h
      cases h
  | none =>
      rw [hregion] at h
      cases h
      exact ⟨_, rfl⟩

/-- Whether a range of bytes can be transferred, in either direction. -/
def checkTransfer (memory : HostMemory) (id : TreeId) (offset length : Nat) :
    Outcome DeviceError Unit := do
  let bytes ← memory.region id
  checkRange offset length bytes.length

theorem checkTransfer_of_region? {offset length : Nat} {bytes : List Byte}
    (hbytes : memory.region? id = some bytes) :
    memory.checkTransfer id offset length = checkRange offset length bytes.length := by
  rw [checkTransfer, region_eq_ok_iff.mpr hbytes]
  rfl

theorem checkTransfer_eq_ok_iff {offset length : Nat} :
    memory.checkTransfer id offset length = .ok () ↔
      ∃ bytes, memory.region? id = some bytes ∧ checkRange offset length bytes.length = .ok () := by
  rw [checkTransfer, bind_eq_ok]
  simp only [region_eq_ok_iff]

theorem checkTransfer_eq_error {offset length : Nat} {failure : Failure DeviceError}
    (h : memory.checkTransfer id offset length = .error failure) :
    ∃ cause, failure = .error cause := by
  rw [checkTransfer, bind_eq_error] at h
  rcases h with h | ⟨bytes, -, h⟩
  · exact region_eq_error h
  · exact checkRange_eq_error h

theorem read_eq_error_iff {offset length : Nat} {failure : Failure DeviceError} :
    memory.read id offset length = .error failure
      ↔ memory.checkTransfer id offset length = .error failure := by
  simp [read, checkTransfer, bind_eq_error, pure, Except.pure]

theorem write_eq_error_iff {offset : Nat} {words : List Word} {failure : Failure DeviceError} :
    memory.write id offset words = .error failure
      ↔ memory.checkTransfer id offset (words.length * wordBytes) = .error failure := by
  simp [write, checkTransfer, bind_eq_error, pure, Except.pure]

/-- A transfer is refused with an error, never with a fault. -/
theorem read_eq_error {offset length : Nat} {failure : Failure DeviceError}
    (h : memory.read id offset length = .error failure) : ∃ cause, failure = .error cause :=
  checkTransfer_eq_error (read_eq_error_iff.mp h)

theorem write_eq_error {offset : Nat} {words : List Word} {failure : Failure DeviceError}
    (h : memory.write id offset words = .error failure) : ∃ cause, failure = .error cause :=
  checkTransfer_eq_error (write_eq_error_iff.mp h)

/-- Only the last replacement of a region shows. -/
theorem replace_replace (id : TreeId) (bytes bytes' : List Byte)
    (regions : List (TreeId × List Byte)) :
    replace id bytes' (replace id bytes regions) = replace id bytes' regions := by
  rw [replace, replace, replace, List.map_map]
  refine List.map_congr_left fun entry _ => ?_
  by_cases h : entry.1 = id
  · simp [h]
  · simp [h]

theorem lookup_replace (id other : TreeId) (bytes : List Byte) :
    ∀ regions : List (TreeId × List Byte),
      (replace id bytes regions).lookup other =
        if other = id then (regions.lookup other).map fun _ => bytes else regions.lookup other := by
  intro regions
  induction regions with
  | nil => by_cases h : other = id <;> simp [replace, h]
  | cons entry rest ih =>
      rw [replace] at ih
      rw [replace, List.map_cons, List.lookup_cons, List.lookup_cons, ih]
      by_cases hentry : entry.1 = id
      · rw [if_pos hentry, hentry]
        by_cases h : other = id
        · simp [h]
        · have hne : (other == id) = false := beq_eq_false_iff_ne.mpr h
          simp [h, hne]
      · rw [if_neg hentry]
        by_cases h : other = id
        · have hne : (other == entry.1) = false :=
            beq_eq_false_iff_ne.mpr fun hc => hentry (hc ▸ h)
          simp [h, h ▸ hne]
        · simp [h]

theorem region?_afterWrite_self {offset : Nat} {words : List Word} {bytes : List Byte}
    (h : memory.region? id = some bytes) :
    (memory.afterWrite id offset words bytes).region? id
      = some (overwrite offset (bytesOfWords words) bytes) := by
  rw [region?] at h
  rw [region?, afterWrite, lookup_replace, if_pos rfl, h]
  rfl

theorem region?_afterWrite_of_ne {offset : Nat} {words : List Word} {bytes : List Byte}
    (h : other ≠ id) :
    (memory.afterWrite id offset words bytes).region? other = memory.region? other := by
  rw [region?, afterWrite, lookup_replace, if_neg h]
  rfl

end HostMemory

end FieldStore
