/-
The words that a field holds.

A field whose tree has storage holds the words of its part of the region; one whose tree has none
holds zeros, which is what it will hold once the tree is served.  So a host that only grows
changes the words of no field.  A write into one field changes no other: two fields of a program
lie in different trees, which have different regions, or beside one another in one tree.
-/
import FieldStore.Proofs.Store.Placement

namespace FieldStore

/-! ### The place of a field -/

section Place

variable {fields : List Field} {trees : List Tree} {field : Field}

/-- The first word of a field in its tree. -/
def Field.firstWord (field : Field) : Nat := field.offset / wordBytes

/-- The number of words of a field. -/
def Field.wordCount (field : Field) : Nat := field.shape.dims.prod * field.type.slotCount

/-- The tree of a field and the words that the field takes in it. -/
theorem Arranged.place (h : Arranged fields trees) (hmem : field ∈ fields) :
    ∃ tree, trees[field.tree]? = some tree ∧ field.offset = field.firstWord * wordBytes ∧
      field.size = field.wordCount * wordBytes ∧
      (field.firstWord + field.wordCount) * wordBytes ≤ tree.size := by
  have hlt := h.tree_lt field hmem
  have hget : trees[field.tree]? = some trees[field.tree] := List.getElem?_eq_getElem hlt
  have hoffset : field.offset = field.firstWord * wordBytes :=
    (Nat.div_mul_cancel (Nat.dvd_of_mod_eq_zero (h.aligned field hmem))).symm
  have hsize := h.size_eq field hmem
  refine ⟨_, hget, hoffset, hsize, ?_⟩
  have hbounds := tiles_bounds (h.tiles _ _ hget) field (mem_fieldsIn.mpr ⟨hmem, rfl⟩)
  rw [Nat.add_mul, ← hoffset]
  exact hsize ▸ hbounds.2

/-- Two fields of one tree lie beside one another. -/
theorem Arranged.apart {other : Field} {number index : Nat} (h : Arranged fields trees)
    (hfield : fields[number]? = some field) (hother : fields[index]? = some other)
    (hne : number ≠ index) (htree : field.tree = other.tree) :
    field.offset + field.size ≤ other.offset ∨ other.offset + other.size ≤ field.offset := by
  obtain ⟨hnumber, rfl⟩ := List.getElem?_eq_some_iff.mp hfield
  obtain ⟨hindex, rfl⟩ := List.getElem?_eq_some_iff.mp hother
  obtain ⟨tree, hget, -⟩ := h.place (List.getElem_mem hnumber)
  have hpairs := tiles_pairwise (h.tiles _ _ hget)
  rw [fieldsIn, List.pairwise_filter, List.pairwise_iff_getElem] at hpairs
  rcases Nat.lt_or_gt_of_ne hne with hlt | hgt
  · exact Or.inl (hpairs number index hnumber hindex hlt (by simp) (by simp [htree]))
  · exact Or.inr (hpairs index number hindex hnumber hgt (by simp [htree]) (by simp))

end Place

/-! ### The words of a field -/

namespace Host

/-- The bytes of the storage of a tree, if it has some. -/
def treeBytes? (host : Host) (index : Nat) : Option (List Byte) :=
  (host.program.storage? index).bind host.memory.region?

/-- The words that a field holds. -/
def held (host : Host) (field : Field) : List Word :=
  match host.treeBytes? field.tree with
  | some bytes => window field.firstWord field.wordCount (wordsOfBytes bytes)
  | none => List.replicate field.wordCount 0

variable {fields : List Field} {host host' : Host} {field : Field}

theorem storage?_of_get {index : Nat} {tree : Tree} (h : host.program.trees[index]? = some tree) :
    host.program.storage? index = tree.storage := by
  rw [Program.storage?, h, Option.bind_some]

/-- The storage of a tree is a region of its size. -/
theorem region_of_storage {index : Nat} {tree : Tree} {id : TreeId} (h : Placed fields host)
    (hget : host.program.trees[index]? = some tree) (hid : tree.storage = some id) :
    ∃ bytes, host.memory.region? id = some bytes ∧ bytes.length = tree.size ∧
      host.treeBytes? index = some bytes := by
  obtain ⟨bytes, hbytes, hlen⟩ := Option.map_eq_some_iff.mp (h.known index tree id hget hid)
  refine ⟨bytes, hbytes, hlen, ?_⟩
  rw [treeBytes?, storage?_of_get hget, hid, Option.bind_some, hbytes]

theorem treeBytes?_of_none {index : Nat} {tree : Tree}
    (hget : host.program.trees[index]? = some tree) (hnone : tree.storage = none) :
    host.treeBytes? index = none := by
  rw [treeBytes?, storage?_of_get hget, hnone, Option.bind_none]

/-- Without storage a field holds zeros. -/
theorem held_of_not_materialized (h : host.program.isMaterialized field.tree = false) :
    host.held field = List.replicate field.wordCount 0 := by
  have hnone : host.treeBytes? field.tree = none := by
    rw [treeBytes?, Option.isNone_iff_eq_none.mp (Option.isSome_eq_false_iff.mp h),
      Option.bind_none]
  rw [held, hnone]

/-- A region as long as the tree has room for the words of the field. -/
theorem room {tree : Tree} {bytes : List Byte} (h : Arranged fields host.program.trees)
    (hget : host.program.trees[field.tree]? = some tree) (hlen : bytes.length = tree.size)
    (hbound : (field.firstWord + field.wordCount) * wordBytes ≤ tree.size) :
    field.firstWord + field.wordCount ≤ (wordsOfBytes bytes).length := by
  have haligned := h.size_aligned hget
  have hwords : bytes.length = (tree.size / wordBytes) * wordBytes := by
    rw [hlen, Nat.div_mul_cancel (Nat.dvd_of_mod_eq_zero haligned)]
  rw [length_wordsOfBytes hwords]
  exact (Nat.le_div_iff_mul_le wordBytes_pos).mpr hbound

theorem length_held (h : Placed fields host) (hmem : field ∈ fields) :
    (host.held field).length = field.wordCount := by
  obtain ⟨tree, hget, -, -, hbound⟩ := h.place hmem
  unfold held
  cases hstorage : tree.storage with
  | none =>
      rw [treeBytes?_of_none hget hstorage]
      exact List.length_replicate
  | some id =>
      obtain ⟨bytes, -, hlen, htree⟩ := region_of_storage h hget hstorage
      rw [htree]
      exact length_window (room h.toArranged hget hlen hbound)

/-- **A host that only grows changes the words of no field.** -/
theorem held_of_grown (h : Placed fields host) (hgrown : Grown host host') (hmem : field ∈ fields) :
    host'.held field = host.held field := by
  obtain ⟨tree, hget, -, -, hbound⟩ := h.place hmem
  obtain ⟨tree', hget', hbecomes⟩ := hgrown.trees.becomes _ tree hget
  unfold held
  cases hstorage : tree.storage with
  | some id =>
      obtain ⟨bytes, hbytes, -, htree⟩ := region_of_storage h hget hstorage
      have hkept := hbecomes.kept (by rw [hstorage]; rfl)
      have htree' : host'.treeBytes? field.tree = some bytes := by
        rw [treeBytes?, storage?_of_get hget', hkept, hstorage, Option.bind_some,
          hgrown.regions id bytes hbytes]
      rw [htree, htree']
  | none =>
      rw [treeBytes?_of_none hget hstorage]
      cases hstorage' : tree'.storage with
      | none => rw [treeBytes?_of_none hget' hstorage']
      | some id =>
          have hzeros := hgrown.zeros _ tree tree' id hget hget' hstorage hstorage'
          have htree' : host'.treeBytes? field.tree = some (List.replicate tree.size 0) := by
            rw [treeBytes?, storage?_of_get hget', hstorage', Option.bind_some, hzeros]
          have hwords : tree.size = (tree.size / wordBytes) * wordBytes :=
            (Nat.div_mul_cancel (Nat.dvd_of_mod_eq_zero (h.size_aligned hget))).symm
          have hroom : field.firstWord + field.wordCount ≤ tree.size / wordBytes :=
            (Nat.le_div_iff_mul_le wordBytes_pos).mpr hbound
          rw [htree']
          show window _ _ (wordsOfBytes (List.replicate tree.size 0)) = _
          rw [hwords, wordsOfBytes_zeros, window, List.drop_replicate, List.take_replicate,
            Nat.min_eq_left (by omega)]

/-! ### Transfers -/

/-- A range that the region accepts begins and ends between two words of the field. -/
theorem aligned_of_range {start count size : Nat}
    (hoffset : field.offset = field.firstWord * wordBytes)
    (hcheck : checkRange (field.offset + start) count size = .ok ()) :
    start = start / wordBytes * wordBytes ∧ count = count / wordBytes * wordBytes := by
  obtain ⟨hstart, hcount, -⟩ := checkRange_eq_ok_iff.mp hcheck
  rw [hoffset, Nat.add_comm, Nat.add_mul_mod_self_right] at hstart
  exact ⟨(Nat.div_mul_cancel (Nat.dvd_of_mod_eq_zero hstart)).symm,
    (Nat.div_mul_cancel (Nat.dvd_of_mod_eq_zero hcount)).symm⟩

/-- A read yields words that the field holds. -/
theorem lanes_of_reads {offset length : Option Nat} {lanes : Lanes} (h : Placed fields host)
    (hmem : field ∈ fields) (hreads : field.Reads offset length host lanes) :
    lanes = Lanes.ofWords (window (offset.getD 0 / wordBytes)
      (length.getD (field.size - offset.getD 0) / wordBytes) (host.held field)) := by
  obtain ⟨start, count, id, bytes, hrange, hstorage, hbytes, hcheck, rfl⟩ := hreads
  obtain ⟨tree, hget, hoffset, hsize, -⟩ := h.place hmem
  obtain ⟨hstart, hcount⟩ := aligned_of_range hoffset hcheck
  obtain ⟨hstart', hcount', hfits⟩ := Field.range_eq_ok hrange
  rw [← hcount', ← hstart']
  have hwithin : start / wordBytes + count / wordBytes ≤ field.wordCount := by
    rw [hsize, hstart, hcount, ← Nat.add_mul] at hfits
    exact Nat.le_of_mul_le_mul_right hfits wordBytes_pos
  have htree : host.treeBytes? field.tree = some bytes := by
    rw [treeBytes?, hstorage, Option.bind_some, hbytes]
  have hbytes' : window (field.offset + start) count bytes =
      window ((field.firstWord + start / wordBytes) * wordBytes) (count / wordBytes * wordBytes)
        bytes := by
    rw [Nat.add_mul, ← hstart, ← hcount, ← hoffset]
  rw [Lanes.ofBytes, hbytes', wordsOfBytes_window, held, htree]
  exact congrArg Lanes.ofWords (window_window hwithin).symm

/-- A read of the whole field yields all of them. -/
theorem lanes_of_reads_whole {lanes : Lanes} (h : Placed fields host) (hmem : field ∈ fields)
    (hreads : field.Reads none none host lanes) : lanes = Lanes.ofWords (host.held field) := by
  obtain ⟨-, -, -, hsize, -⟩ := h.place hmem
  have hlanes := lanes_of_reads h hmem hreads
  rwa [Option.getD_none, Option.getD_none, Nat.zero_div, Nat.sub_zero, hsize,
    Nat.mul_div_cancel _ wordBytes_pos, window_whole (length_held h hmem)] at hlanes

theorem treeBytes?_written_self {index start : Nat} {id : TreeId} {words : List Word}
    {bytes : List Byte} (hstorage : host.program.storage? index = some id)
    (hbytes : host.memory.region? id = some bytes) :
    (host.written id start words bytes).treeBytes? index
      = some (overwrite start (bytesOfWords words) bytes) := by
  have hsame : (host.written id start words bytes).program.storage? index = some id := hstorage
  rw [treeBytes?, hsame, Option.bind_some]
  exact HostMemory.region?_afterWrite_self hbytes

theorem treeBytes?_written_of_ne {index start : Nat} {id : TreeId} {words : List Word}
    {bytes : List Byte} (hne : host.program.storage? index ≠ some id) :
    (host.written id start words bytes).treeBytes? index = host.treeBytes? index := by
  have hsame : (host.written id start words bytes).program.storage? index
      = host.program.storage? index := rfl
  rw [treeBytes?, treeBytes?, hsame]
  cases hstorage : host.program.storage? index with
  | none => rfl
  | some other =>
      refine HostMemory.region?_afterWrite_of_ne ?_
      rintro rfl
      exact hne hstorage

/-- A write puts its words among those that the field holds, and none among those of another. -/
theorem held_of_writes {words : List Word} {offset : Option Nat} {number : Nat}
    (h : Placed fields host) (hfield : fields[number]? = some field)
    (hwrites : field.Writes words offset host host') :
    host'.held field = overwrite (offset.getD 0 / wordBytes) words (host.held field) ∧
      ∀ index other, fields[index]? = some other → index ≠ number →
        host'.held other = host.held other := by
  obtain ⟨start, id, bytes, hrange, hstorage, hbytes, hcheck, rfl⟩ := hwrites
  obtain ⟨tree, hget, hoffset, hsize, hbound⟩ := h.place (List.mem_of_getElem? hfield)
  obtain ⟨rfl, -, hfits⟩ := Field.range_eq_ok hrange
  obtain ⟨hstart, -⟩ := aligned_of_range hoffset hcheck
  obtain ⟨first, hfirst⟩ : ∃ first, first = offset.getD 0 / wordBytes := ⟨_, rfl⟩
  rw [← hfirst] at hstart ⊢
  have hid : tree.storage = some id := by rw [← storage?_of_get hget, hstorage]
  have hbefore : host.treeBytes? field.tree = some bytes := by
    rw [treeBytes?, hstorage, Option.bind_some, hbytes]
  -- The words that are written and those of the whole tree afterwards.
  have hinside : first + words.length ≤ field.wordCount := by
    rw [hsize, hstart, ← Nat.add_mul] at hfits
    exact Nat.le_of_mul_le_mul_right hfits wordBytes_pos
  have hroom : field.firstWord + field.wordCount ≤ (wordsOfBytes bytes).length := by
    obtain ⟨bytes', -, hlen, htree'⟩ := region_of_storage h hget hid
    cases hbefore.symm.trans htree'
    exact room h.toArranged hget hlen hbound
  have hwords : wordsOfBytes (overwrite (field.offset + offset.getD 0) (bytesOfWords words) bytes)
      = overwrite (field.firstWord + first) words (wordsOfBytes bytes) := by
    have hsum := (checkRange_eq_ok_iff.mp hcheck).2.2.2
    rw [hoffset, hstart, ← Nat.add_mul] at hsum ⊢
    refine wordsOfBytes_overwrite ?_
    rwa [← Nat.add_mul] at hsum
  constructor
  · rw [held, held, hbefore, treeBytes?_written_self hstorage hbytes]
    show window _ _ (wordsOfBytes _) = _
    rw [hwords]
    exact window_overwrite_within hinside hroom
  · intro index other hother hne
    obtain ⟨tree', hget', hoffset', hsize', -⟩ := h.place (List.mem_of_getElem? hother)
    by_cases hsame : other.tree = field.tree
    · -- In the same tree the two fields lie beside one another.
      have hapart := h.toArranged.apart hother hfield hne hsame
      rw [hoffset, hsize, hoffset', hsize', ← Nat.add_mul, ← Nat.add_mul] at hapart
      have hbeside : field.firstWord + first + words.length ≤ other.firstWord ∨
          other.firstWord + other.wordCount ≤ field.firstWord + first := by
        rcases hapart with hle | hle
        · have := Nat.le_of_mul_le_mul_right hle wordBytes_pos
          exact Or.inr (by omega)
        · have := Nat.le_of_mul_le_mul_right hle wordBytes_pos
          exact Or.inl (by omega)
      rw [held, held, hsame, hbefore, treeBytes?_written_self hstorage hbytes]
      show window _ _ (wordsOfBytes _) = _
      rw [hwords]
      exact window_overwrite_apart (by omega) hbeside
    · -- Another tree has another region.
      have hother' : host.program.storage? other.tree ≠ some id := by
        intro hc
        rw [storage?_of_get hget'] at hc
        exact hsame (h.distinct _ _ tree' tree id hget' hget hc hid)
      rw [held, held, treeBytes?_written_of_ne hother']

/-! ### Declaration -/

/-- **A declaration changes the words of no field**, and the new field holds zeros. -/
theorem held_declare {program' : Program} {ty : ElementType} {dims : List Nat}
    (h : Placed fields host) (hdeclare : host.program.declare ty dims = .ok (field, program')) :
    (∀ other, held { host with program := program' } other = host.held other) ∧
      held { host with program := program' } field = List.replicate field.wordCount 0 := by
  obtain ⟨hstorage, hnone⟩ := storage?_declare h.sealed_of_storage hdeclare
  constructor
  · intro other
    have htree : treeBytes? { host with program := program' } other.tree
        = host.treeBytes? other.tree := by rw [treeBytes?, treeBytes?, hstorage]
    rw [held, held, htree]
  · have htree : treeBytes? { host with program := program' } field.tree = none := by
      rw [treeBytes?, hnone, Option.bind_none]
    rw [held, htree]

end Host

end FieldStore
