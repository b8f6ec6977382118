/-
Every way of writing a whole field leaves the same bytes.

The part of a region that belongs to a field is a row of blocks, one for each element.  Setting an
element replaces its block; writing an array, or a list of numbers, replaces them all.  So once
every element has been set, in whatever order, the blocks are those of the array.  The induction
is on the elements still to be set: a block that is already right stays right, since an element
that is set twice is set to the same.

What the writes have in common comes first.  Each of them sees to the storage of the tree before it
writes, and only the first one can find it missing; from then on they only change bytes.
-/
import FieldStore.Proofs.Grid.Tuples
import FieldStore.Proofs.Store.Availability

namespace FieldStore

variable {fields : List Field} {host prepared : Host} {field : Field} {id : TreeId}

/-! ### One write -/

namespace Host

theorem requireStorage_of_storage {tree : Nat} (hstorage : host.program.storage? tree = some id) :
    runs (requireStorage tree) host = (.ok id, host) := by
  rw [runs_eq_ok_iff]
  unfold requireStorage
  rw [ends_bind, ends_get, hstorage]
  exact ⟨rfl, rfl⟩

/-- The host is another one but for the bytes of one region and for what was transferred. -/
structure Rewritten (id : TreeId) (bytes : List Byte) (host host' : Host) : Prop where
  program : host'.program = host.program
  regions : host'.memory.regions = HostMemory.replace id bytes host.memory.regions

theorem rewritten_written (host : Host) (id : TreeId) (start : Nat) (words : List Word)
    (bytes : List Byte) :
    Rewritten id (overwrite start (bytesOfWords words) bytes) host
      (host.written id start words bytes) := ⟨rfl, rfl⟩

namespace Rewritten

variable {bytes old : List Byte} {host' : Host}

/-- Writing once more changes the same region. -/
theorem written (start : Nat) (words : List Word) (h : Rewritten id bytes host host') :
    Rewritten id (overwrite start (bytesOfWords words) bytes) host
      (host'.written id start words bytes) := by
  refine ⟨h.program, ?_⟩
  show HostMemory.replace id _ host'.memory.regions = _
  rw [h.regions, HostMemory.replace_replace]

theorem region? (h : Rewritten id bytes host host') (hold : host.memory.region? id = some old) :
    host'.memory.region? id = some bytes := by
  rw [HostMemory.region?] at hold
  rw [HostMemory.region?, h.regions, HostMemory.lookup_replace, if_pos rfl, hold]
  rfl

/-- Hosts with the same bytes in that region are the same but for what was transferred. -/
theorem agree {other : Host} (h : Rewritten id bytes host host')
    (hother : Rewritten id bytes host other) :
    host'.program = other.program ∧ host'.memory.regions = other.memory.regions :=
  ⟨h.program.trans hother.program.symm, h.regions.trans hother.regions.symm⟩

end Rewritten

end Host

/-- A write goes to the storage that is found or obtained. -/
theorem Field.runs_write {words : List Word} {offset : Option Nat} {bytes : List Byte}
    (hmem : field ∈ fields)
    (hrequire : Host.runs (Host.requireStorage field.tree) host = (.ok id, prepared))
    (hplaced : Placed fields prepared)
    (hstorage : prepared.program.storage? field.tree = some id)
    (hbytes : prepared.memory.region? id = some bytes)
    (hcovers : field.Covers offset (some (words.length * wordBytes))) :
    Host.runs (field.write words offset) host
      = (.ok (), prepared.written id (field.offset + offset.getD 0) words bytes) := by
  rw [Host.runs_eq_ok_iff, write_eq_access]
  refine ends_access_of_covers (hplaced.toArranged.end_lt hmem) hcovers
    (fun found mid => found = id ∧ mid = prepared) (Host.runs_eq_ok_iff.mp hrequire) ?_
  rintro _ _ ⟨rfl, rfl⟩
  obtain ⟨bytes', hbytes', hcheck⟩ := region_of_covers hplaced hmem hcovers hstorage
  cases hbytes.symm.trans hbytes'
  exact Host.ends_writeRegion_of_range hbytes hcheck ⟨rfl, rfl⟩

/-- So does every update of a field that has words for a range of it. -/
theorem Ledger.update_of_require {ledger : Ledger} {number : Nat} {change : Update}
    {words : List Word} {offset : Option Nat} {bytes : List Byte}
    (hfield : ledger.fields[number]? = some field)
    (hrequire : Host.runs (Host.requireStorage field.tree) ledger.host = (.ok id, prepared))
    (hplaced : Placed ledger.fields prepared)
    (hstorage : prepared.program.storage? field.tree = some id)
    (hbytes : prepared.memory.region? id = some bytes)
    (hpayload : change.payload field = .ok (words, offset))
    (hcovers : field.Covers offset (some (words.length * wordBytes))) :
    ledger.outcome (.update number change) = .ok .done ∧
      ledger.step (.update number change)
        = ⟨prepared.written id (field.offset + offset.getD 0) words bytes, ledger.fields⟩ := by
  have hwrite := Field.runs_write (List.mem_of_getElem? hfield) hrequire hplaced hstorage hbytes
    hcovers
  have hrun : Host.runs ((Command.update number change).run ledger.fields) ledger.host
      = (.ok .done, prepared.written id (field.offset + offset.getD 0) words bytes) := by
    simp only [Command.run, hfield, Host.runs_bind, Update.run_eq_write hpayload, hwrite]
    rfl
  have houtcome : ledger.outcome (.update number change) = .ok .done := congrArg Prod.fst hrun
  refine ⟨houtcome, ?_⟩
  rw [Ledger.step, houtcome, hrun]
  exact congrArg (Ledger.mk _) (List.append_nil _)

/-! ### The elements of a field in its region -/

/-- What stands before a field in a region, and one block for each of its elements. -/
structure Field.Blocks (field : Field) (front : List Byte) (blocks : List (List Byte)) : Prop where
  start : front.length = field.offset
  count : blocks.length = field.shape.dims.prod
  width : ∀ block ∈ blocks, block.length = field.type.slotCount * wordBytes

/-- The blocks of the elements of a nested array. -/
def Field.rows (field : Field) (nested : NdArray Value) : List (List Byte) :=
  nested.leaves.map fun value => bytesOfWords (field.type.words value)

section Blocks

variable {nested : NdArray Value} {front back : List Byte} {blocks : List (List Byte)}

/-- The region of a field's tree is cut at the ends of the field and of its elements. -/
theorem exists_blocks {bytes : List Byte} (h : Placed fields host) (hmem : field ∈ fields)
    (hstorage : host.program.storage? field.tree = some id)
    (hbytes : host.memory.region? id = some bytes) :
    ∃ front blocks back, bytes = front ++ blocks.flatten ++ back ∧ field.Blocks front blocks := by
  obtain ⟨tree, hget, hoffset, hsize, hbound⟩ := h.place hmem
  rw [Host.storage?_of_get hget] at hstorage
  obtain ⟨bytes', hbytes', hlen, -⟩ := Host.region_of_storage h hget hstorage
  cases hbytes.symm.trans hbytes'
  rw [Nat.add_mul, ← hoffset, ← hsize, ← hlen] at hbound
  have hcount : (window field.offset field.size bytes).length
      = field.shape.dims.prod * (field.type.slotCount * wordBytes) := by
    rw [length_window hbound, h.size_eq field hmem, Nat.mul_assoc]
  obtain ⟨blocks, hblocks, hwidths, hflat⟩ := Grid.exists_rows _ _ _ hcount
  have hfront : (bytes.take field.offset).length = field.offset := by
    rw [List.length_take]
    omega
  refine ⟨bytes.take field.offset, blocks, bytes.drop (field.offset + field.size), ?_,
    ⟨hfront, hblocks, hwidths⟩⟩
  rw [hflat, window, ← List.drop_drop, List.append_assoc, List.take_append_drop,
    List.take_append_drop]

theorem length_of_mem_rows (hfilled : nested.Filled field.type.Conforms field.shape.dims) :
    ∀ row ∈ field.rows nested, row.length = field.type.slotCount * wordBytes := by
  intro row hmem
  obtain ⟨value, hvalue, rfl⟩ := List.mem_map.mp hmem
  rw [length_bytesOfWords,
    ElementType.length_words _ _ (NdArray.of_mem_leaves hfilled value hvalue)]

theorem Field.Blocks.rows (h : field.Blocks front blocks)
    (hfilled : nested.Filled field.type.Conforms field.shape.dims) :
    field.Blocks front (field.rows nested) := by
  refine ⟨h.start, ?_, length_of_mem_rows hfilled⟩
  rw [Field.rows, List.length_map, NdArray.length_leaves hfilled]

theorem Field.Blocks.set {block : List Byte} {i : Nat} (h : field.Blocks front blocks)
    (hblock : block.length = field.type.slotCount * wordBytes) :
    field.Blocks front (blocks.set i block) := by
  refine ⟨h.start, by rw [List.length_set, h.count], ?_⟩
  intro other hmem
  rcases List.mem_or_eq_of_mem_set hmem with hmem | rfl
  · exact h.width other hmem
  · exact hblock

theorem flatten_rows :
    (field.rows nested).flatten = bytesOfWords (nested.leaves.flatMap field.type.words) := by
  rw [Field.rows, ← List.flatMap_def, bytesOfWords, List.flatMap_assoc]
  rfl

/-- Writing the words of a whole array replaces all blocks. -/
theorem overwrite_rows (h : field.Blocks front blocks)
    (hfilled : nested.Filled field.type.Conforms field.shape.dims) :
    overwrite field.offset (bytesOfWords (nested.leaves.flatMap field.type.words))
        (front ++ blocks.flatten ++ back)
      = front ++ (field.rows nested).flatten ++ back := by
  rw [← flatten_rows]
  refine overwrite_append h.start ?_
  rw [Grid.length_flatten h.width, Grid.length_flatten (length_of_mem_rows hfilled), h.count,
    (h.rows hfilled).count]

/-- The element at some indices has its block at their position. -/
theorem row_of_at? {indices : List Nat} {value : Value}
    (hfilled : nested.Filled field.type.Conforms field.shape.dims)
    (hwithin : Shape.Within indices field.shape.dims)
    (hvalue : nested.at? indices = some (.element value)) :
    field.type.Conforms value ∧
      (field.rows nested)[Shape.rowMajor indices field.shape.dims]?
        = some (bytesOfWords (field.type.words value)) := by
  obtain ⟨x, hat, hx⟩ := NdArray.at?_of_filled hfilled hwithin
  cases hvalue.symm.trans hat
  refine ⟨NdArray.of_mem_leaves hfilled value (List.mem_of_getElem? hx), ?_⟩
  rw [Field.rows, List.getElem?_map, hx]
  rfl

/-- The leaves with their indices: each stands at its own, and no position is left out. -/
theorem exists_entries_at {tuples : List (List Nat)}
    (hfilled : nested.Filled field.type.Conforms field.shape.dims)
    (htuples : (Grid.tuples field.shape.dims : Outcome FieldError (List (List Nat))) = .ok tuples) :
    ∃ entries : List (List Nat × Value),
      entries.map Prod.fst = tuples ∧ entries.map Prod.snd = nested.leaves ∧
        (∀ entry ∈ entries, Shape.Within entry.1 field.shape.dims ∧
          nested.at? entry.1 = some (.element entry.2)) ∧
        ∀ i, i < field.shape.dims.prod →
          ∃ entry ∈ entries, Shape.rowMajor entry.1 field.shape.dims = i := by
  have hlen : tuples.length = nested.leaves.length := by
    rw [Grid.length_tuples htuples, NdArray.length_leaves hfilled]
  refine ⟨tuples.zip nested.leaves, List.map_fst_zip (Nat.le_of_eq hlen),
    List.map_snd_zip (Nat.le_of_eq hlen.symm), ?_,
    fun i hlt => Grid.exists_entry_of_lt htuples hlen hlt⟩
  intro entry hmem
  exact ⟨(Grid.mem_tuples_iff htuples entry.1).mp (List.of_mem_zip hmem).1,
    Grid.at?_of_mem_zip htuples hfilled entry hmem⟩

end Blocks

/-! ### The words of an array -/

section Payload

variable {trees : List Tree} {nested : NdArray Value}

theorem length_words_leaves (hfilled : nested.Filled field.type.Conforms field.shape.dims) :
    (nested.leaves.flatMap field.type.words).length
      = field.shape.dims.prod * field.type.slotCount := by
  have hwidth : ∀ words ∈ nested.leaves.map field.type.words,
      words.length = field.type.slotCount := by
    intro words hwords
    obtain ⟨value, hvalue, rfl⟩ := List.mem_map.mp hwords
    exact ElementType.length_words _ _ (NdArray.of_mem_leaves hfilled value hvalue)
  rw [List.flatMap_def, Grid.length_flatten hwidth, List.length_map,
    NdArray.length_leaves hfilled]

/-- They cover the field. -/
theorem covers_leaves (h : Arranged fields trees) (hmem : field ∈ fields)
    (hfilled : nested.Filled field.type.Conforms field.shape.dims) :
    field.Covers none
      (some ((nested.leaves.flatMap field.type.words).length * wordBytes)) := by
  refine ⟨rfl, Nat.mul_mod_left .., ?_⟩
  rw [length_words_leaves hfilled, Option.getD_some, Option.getD_none, h.size_eq field hmem,
    Nat.zero_add]

theorem payload_fromArray (h : Arranged fields trees) (hmem : field ∈ fields)
    (hfilled : nested.Filled field.type.Conforms field.shape.dims)
    (hroom : NdArray.referenceWidth * field.shape.dims.prod ≤ Size.objectLimit) :
    (Update.fromArray nested).payload field
      = .ok (nested.leaves.flatMap field.type.words, none) := by
  obtain ⟨-, hfits⟩ := h.valid field hmem
  have hflatten := NdArray.flatten_eq_leaves hfilled field.shape.dims_pos (h.prod_lt hmem) hroom
  rw [Update.payload]
  exact bind_eq_ok.mpr ⟨_, hflatten, bind_eq_ok.mpr
    ⟨_, Field.encodeElements_eq hfits (NdArray.of_mem_leaves hfilled), rfl⟩⟩

/-- Where the index tuples can be listed there is room for references to the elements. -/
theorem referenceWidth_mul_le_of_tuples {tuples : List (List Nat)}
    (htuples : (Grid.tuples field.shape.dims : Outcome FieldError (List (List Nat))) = .ok tuples) :
    NdArray.referenceWidth * field.shape.dims.prod ≤ Size.objectLimit := by
  have hlisted := Grid.prod_le_of_tuples field.shape.dims_ne_nil htuples
  simp only [NdArray.referenceWidth, Grid.listWidth] at hlisted ⊢
  omega

/-- The numbers of the elements in one list make the same words. -/
theorem payload_fromNumbers {primitive : Primitive} (h : Arranged fields trees)
    (hmem : field ∈ fields) (hprimitive : field.type.primitive? = some primitive)
    (hfilled : nested.Filled field.type.Conforms field.shape.dims) :
    ∃ rows, nested.leaves.mapM field.type.tensorNumbers = .ok rows ∧
      (Update.fromNumbers rows.flatten).payload field
        = .ok (nested.leaves.flatMap field.type.words, none) := by
  obtain ⟨rows, hrows, hwords⟩ :=
    ElementType.mapM_tensorNumbers hprimitive (NdArray.of_mem_leaves hfilled)
  have hlen : rows.flatten.length * wordBytes = field.size := by
    rw [← List.length_map primitive.toWord, hwords, length_words_leaves hfilled,
      h.size_eq field hmem]
  have hsame : ¬ rows.flatten.length * wordBytes ≠ field.size := fun hc => hc hlen
  refine ⟨rows, hrows, ?_⟩
  rw [← hwords]
  simp only [Update.payload, hprimitive]
  exact if_neg hsame

end Payload

/-! ### Element by element -/

/-- The commands that set some elements of a field in turn. -/
def Command.sets (number : Nat) (entries : List (List Nat × Value)) : List Command :=
  entries.map fun entry => .update number (.set entry.1 entry.2)

namespace Ledger

variable {ledger : Ledger} {number : Nat} {nested : NdArray Value} {front back : List Byte}
  {blocks : List (List Byte)}

/-- Setting an element replaces its block. -/
theorem set_of_require {indices : List Nat} {value : Value}
    (hfield : ledger.fields[number]? = some field)
    (hrequire : Host.runs (Host.requireStorage field.tree) ledger.host = (.ok id, prepared))
    (hplaced : Placed ledger.fields prepared)
    (hstorage : prepared.program.storage? field.tree = some id)
    (hbytes : prepared.memory.region? id = some (front ++ blocks.flatten ++ back))
    (hblocks : field.Blocks front blocks) (hwithin : Shape.Within indices field.shape.dims)
    (hconforms : field.type.Conforms value) :
    ledger.outcome (.update number (.set indices value)) = .ok .done ∧
      ∃ start, ledger.step (.update number (.set indices value))
          = ⟨prepared.written id start (field.type.words value) (front ++ blocks.flatten ++ back),
            ledger.fields⟩ ∧
        overwrite start (bytesOfWords (field.type.words value)) (front ++ blocks.flatten ++ back)
          = front ++ (blocks.set (Shape.rowMajor indices field.shape.dims)
              (bytesOfWords (field.type.words value))).flatten ++ back := by
  have hmem := List.mem_of_getElem? hfield
  obtain ⟨-, hfits⟩ := hplaced.valid field hmem
  obtain ⟨offset, length, hrange, hcovers⟩ :=
    Field.byteRange_of_within hplaced.toArranged hmem hwithin
  have hpayload : (Update.set indices value).payload field
      = .ok (field.type.words value, some offset) := by
    rw [Update.payload, hrange, ElementType.encodeWords_eq hfits hconforms]
    rfl
  obtain ⟨hoffset, rfl, hlt⟩ := Field.byteRange_eq_ok hrange
  have hlen := ElementType.length_words _ _ hconforms
  obtain ⟨houtcome, hstep⟩ := update_of_require hfield hrequire hplaced hstorage hbytes hpayload
    (by rwa [hlen])
  refine ⟨houtcome, field.offset + offset, hstep, ?_⟩
  rw [hoffset, Nat.mul_assoc, ← hblocks.start]
  exact Grid.overwrite_block hblocks.width (by rw [length_bytesOfWords, hlen])
    (by rw [hblocks.count]; exact hlt)

/-- A block that is right stays right, and that of the element set is right now. -/
theorem right_of_set {indices : List Nat} {value : Value} {row : List Byte}
    {rest : List (List Nat × Value)} (hcount : blocks.length = field.shape.dims.prod)
    (hrow : (field.rows nested)[Shape.rowMajor indices field.shape.dims]? = some row)
    (hright : ∀ i, i < field.shape.dims.prod → blocks[i]? = (field.rows nested)[i]? ∨
      ∃ entry ∈ (indices, value) :: rest, Shape.rowMajor entry.1 field.shape.dims = i) :
    ∀ i, i < field.shape.dims.prod →
      (blocks.set (Shape.rowMajor indices field.shape.dims) row)[i]? = (field.rows nested)[i]? ∨
        ∃ entry ∈ rest, Shape.rowMajor entry.1 field.shape.dims = i := by
  intro i hlt
  by_cases heq : Shape.rowMajor indices field.shape.dims = i
  · rw [← heq] at hlt ⊢
    rw [hrow, List.getElem?_set_self (by rw [hcount]; exact hlt)]
    exact Or.inl rfl
  · rw [List.getElem?_set_ne heq]
    rcases hright i hlt with hdone | ⟨entry, hmem, hposition⟩
    · exact Or.inl hdone
    · rcases List.mem_cons.mp hmem with rfl | hmem
      · exact absurd hposition heq
      · exact Or.inr ⟨entry, hmem, hposition⟩

/-- **Once every element has been set the blocks are those of the array**, in whatever order.  At
any point each block is right already or its element is still to be set. -/
theorem after_sets {first : Host} {old : List Byte}
    (hstorage : first.program.storage? field.tree = some id)
    (hregion : first.memory.region? id = some old)
    (hfilled : nested.Filled field.type.Conforms field.shape.dims) :
    ∀ (entries : List (List Nat × Value)) (ledger : Ledger) {blocks : List (List Byte)},
      Placed ledger.fields ledger.host → ledger.fields[number]? = some field →
      first.Rewritten id (front ++ blocks.flatten ++ back) ledger.host →
      field.Blocks front blocks →
      (∀ entry ∈ entries, Shape.Within entry.1 field.shape.dims ∧
        nested.at? entry.1 = some (.element entry.2)) →
      (∀ i, i < field.shape.dims.prod → blocks[i]? = (field.rows nested)[i]? ∨
        ∃ entry ∈ entries, Shape.rowMajor entry.1 field.shape.dims = i) →
        ledger.Succeeds (Command.sets number entries) ∧
          first.Rewritten id (front ++ (field.rows nested).flatten ++ back)
            (ledger.after (Command.sets number entries)).host := by
  intro entries
  induction entries with
  | nil =>
      intro ledger blocks _ _ hrewritten hblocks _ hright
      have hall : blocks = field.rows nested := by
        apply List.ext_getElem?
        intro i
        rcases Nat.lt_or_ge i field.shape.dims.prod with hlt | hge
        · rcases hright i hlt with heq | ⟨_, hmem, _⟩
          · exact heq
          · cases hmem
        · rw [List.getElem?_eq_none (by rw [hblocks.count]; exact hge),
            List.getElem?_eq_none (by rw [(hblocks.rows hfilled).count]; exact hge)]
      exact ⟨trivial, hall ▸ hrewritten⟩
  | cons entry rest ih =>
      intro ledger blocks hplaced hfield hrewritten hblocks hentries hright
      obtain ⟨indices, value⟩ := entry
      obtain ⟨hwithin, hvalue⟩ := hentries (indices, value) List.mem_cons_self
      obtain ⟨hconforms, hrow⟩ := row_of_at? hfilled hwithin hvalue
      have hhas : ledger.host.program.storage? field.tree = some id := by
        rw [hrewritten.program, hstorage]
      obtain ⟨houtcome, start, hstep, hput⟩ := set_of_require hfield
        (Host.requireStorage_of_storage hhas) hplaced hhas (hrewritten.region? hregion) hblocks
        hwithin hconforms
      have hplaced' := (stays_step (.update number (.set indices value)) hplaced).placed
      have hwritten := hrewritten.written start (field.type.words value)
      rw [hput] at hwritten
      have hwidth : (bytesOfWords (field.type.words value)).length
          = field.type.slotCount * wordBytes := by
        rw [length_bytesOfWords, ElementType.length_words _ _ hconforms]
      have hrest := ih (ledger.step (.update number (.set indices value))) hplaced'
        (by rw [hstep]; exact hfield) (by rw [hstep]; exact hwritten) (hblocks.set hwidth)
        (fun other hmem => hentries other (List.mem_cons_of_mem _ hmem))
        (right_of_set hblocks.count hrow hright)
      exact ⟨⟨⟨_, houtcome⟩, hrest.1⟩, hrest.2⟩

/-! ### All ways of writing a field -/

/-- A tree that is served has storage, or is given some by the first write. -/
theorem exists_prepared (hplaced : Placed ledger.fields ledger.host) (hmem : field ∈ ledger.fields)
    (hserves : ledger.host.Serves field.tree) :
    ∃ prepared id bytes,
      Host.runs (Host.requireStorage field.tree) ledger.host = (.ok id, prepared) ∧
        Placed ledger.fields prepared ∧ prepared.program.storage? field.tree = some id ∧
        prepared.memory.region? id = some bytes := by
  rcases Host.runs_of_ends (Host.ends_and (Host.ends_requireStorage hplaced)
    (Host.ends_requireStorage_serves hplaced (hplaced.tree_lt field hmem)))
    with ⟨id, prepared, hrun, ⟨hkept, hstorage⟩, -⟩ | ⟨_, _, _, -, hno⟩
  · obtain ⟨bytes, hbytes, -⟩ := Field.region_of_covers hkept.placed hmem
      (hkept.placed.toArranged.covers_whole hmem) hstorage
    exact ⟨prepared, id, bytes, hrun, hkept.placed, hstorage, hbytes⟩
  · exact absurd hserves hno.1

/-- Whatever hands the words of a whole array to the field replaces all its blocks. -/
theorem rewritten_whole {change : Update}
    (hfield : ledger.fields[number]? = some field)
    (hrequire : Host.runs (Host.requireStorage field.tree) ledger.host = (.ok id, prepared))
    (hprepared : Placed ledger.fields prepared)
    (hstorage : prepared.program.storage? field.tree = some id)
    (hbytes : prepared.memory.region? id = some (front ++ blocks.flatten ++ back))
    (hblocks : field.Blocks front blocks)
    (hfilled : nested.Filled field.type.Conforms field.shape.dims)
    (hpayload : change.payload field = .ok (nested.leaves.flatMap field.type.words, none)) :
    ledger.outcome (.update number change) = .ok .done ∧
      prepared.Rewritten id (front ++ (field.rows nested).flatten ++ back)
        (ledger.step (.update number change)).host := by
  obtain ⟨houtcome, hstep⟩ := update_of_require hfield hrequire hprepared hstorage hbytes hpayload
    (covers_leaves hprepared.toArranged (List.mem_of_getElem? hfield) hfilled)
  refine ⟨houtcome, ?_⟩
  rw [hstep, ← overwrite_rows hblocks hfilled]
  exact Host.rewritten_written prepared id field.offset _ _

/-- Setting the elements one by one, from a ledger whose first write may have to see to storage. -/
theorem rewritten_sets (entries : List (List Nat × Value))
    (hfield : ledger.fields[number]? = some field)
    (hplaced : Placed ledger.fields ledger.host)
    (hrequire : Host.runs (Host.requireStorage field.tree) ledger.host = (.ok id, prepared))
    (hprepared : Placed ledger.fields prepared)
    (hstorage : prepared.program.storage? field.tree = some id)
    (hbytes : prepared.memory.region? id = some (front ++ blocks.flatten ++ back))
    (hblocks : field.Blocks front blocks)
    (hfilled : nested.Filled field.type.Conforms field.shape.dims)
    (hentries : ∀ entry ∈ entries, Shape.Within entry.1 field.shape.dims ∧
      nested.at? entry.1 = some (.element entry.2))
    (hall : ∀ i, i < field.shape.dims.prod →
      ∃ entry ∈ entries, Shape.rowMajor entry.1 field.shape.dims = i) :
    ledger.Succeeds (Command.sets number entries) ∧
      prepared.Rewritten id (front ++ (field.rows nested).flatten ++ back)
        (ledger.after (Command.sets number entries)).host := by
  cases entries with
  | nil =>
      obtain ⟨_, hmem, -⟩ := hall 0 (List.prod_pos_iff_forall_pos_nat.mpr field.shape.dims_pos)
      cases hmem
  | cons entry rest =>
      obtain ⟨indices, value⟩ := entry
      obtain ⟨hwithin, hvalue⟩ := hentries (indices, value) List.mem_cons_self
      obtain ⟨hconforms, hrow⟩ := row_of_at? hfilled hwithin hvalue
      obtain ⟨houtcome, start, hstep, hput⟩ := set_of_require hfield hrequire hprepared hstorage
        hbytes hblocks hwithin hconforms
      have hwritten := Host.rewritten_written prepared id start (field.type.words value)
        (front ++ blocks.flatten ++ back)
      rw [hput] at hwritten
      have hwidth : (bytesOfWords (field.type.words value)).length
          = field.type.slotCount * wordBytes := by
        rw [length_bytesOfWords, ElementType.length_words _ _ hconforms]
      have hrest := after_sets hstorage hbytes hfilled rest
        (ledger.step (.update number (.set indices value)))
        (stays_step (.update number (.set indices value)) hplaced).placed
        (by rw [hstep]; exact hfield) (by rw [hstep]; exact hwritten) (hblocks.set hwidth)
        (fun other hmem => hentries other (List.mem_cons_of_mem _ hmem))
        (right_of_set hblocks.count hrow fun i hlt => Or.inr (hall i hlt))
      exact ⟨⟨⟨_, houtcome⟩, hrest.1⟩, hrest.2⟩

/-- **All ways of writing a field leave the same bytes.**  In every state that a run reaches, take
a field whose tree has storage or can be materialized, and a nested array of conforming values with
its axes.  Writing the array, setting its elements one by one in any order, and, for a field of
tensor type, writing its numbers in one list all succeed, and the programs and the regions of the
memory are the same afterwards. -/
theorem write_paths_agree (limit : Option Nat) (nextId : Nat) (history : List Command) :
    let now := (start limit nextId).after history
    ∀ (number : Nat) (field : Field) (nested : NdArray Value) (tuples : List (List Nat)),
      now.fields[number]? = some field →
      (now.host.program.isMaterialized field.tree = true ∨
        ∃ reply, now.outcome .materialize = .ok reply) →
      nested.Filled field.type.Conforms field.shape.dims →
      (Grid.tuples field.shape.dims : Outcome FieldError (List (List Nat))) = .ok tuples →
        let whole := now.step (.update number (.fromArray nested))
        now.outcome (.update number (.fromArray nested)) = .ok .done ∧
        ∃ entries : List (List Nat × Value), entries.map Prod.fst = tuples ∧
          (∀ entry ∈ entries, nested.at? entry.1 = some (.element entry.2)) ∧
          (∀ order : List (List Nat × Value), order.Perm entries →
            let each := now.after (Command.sets number order)
            now.Succeeds (Command.sets number order) ∧
              each.host.program = whole.host.program ∧
              each.host.memory.regions = whole.host.memory.regions) ∧
          (field.type.primitive?.isSome = true → ∃ rows : List (List Binary64),
            entries.mapM (fun entry => field.type.tensorNumbers entry.2) = .ok rows ∧
            let flat := now.step (.update number (.fromNumbers rows.flatten))
            now.outcome (.update number (.fromNumbers rows.flatten)) = .ok .done ∧
              flat.host.program = whole.host.program ∧
              flat.host.memory.regions = whole.host.memory.regions) := by
  intro now number field nested tuples hfield hready hfilled htuples whole
  have hplaced := (stays_after history (placed_start limit nextId)).placed
  have hmem := List.mem_of_getElem? hfield
  have hserves : now.host.Serves field.tree :=
    hready.imp id (materialize_succeeds_iff hplaced).mp
  obtain ⟨prepared, id, bytes, hrequire, hprepared, hstorage, hbytes⟩ :=
    exists_prepared hplaced hmem hserves
  obtain ⟨front, blocks, back, rfl, hblocks⟩ := exists_blocks hprepared hmem hstorage hbytes
  -- Whatever hands the words of the array to the field leaves the same bytes.
  have hwhole (change : Update)
      (hpayload : change.payload field = .ok (nested.leaves.flatMap field.type.words, none)) :=
    rewritten_whole hfield hrequire hprepared hstorage hbytes hblocks hfilled
      hpayload
  obtain ⟨houtcome, hrewritten⟩ := hwhole (.fromArray nested) (payload_fromArray
    hplaced.toArranged hmem hfilled (referenceWidth_mul_le_of_tuples htuples))
  obtain ⟨entries, hindices, hvalues, hentries, hall⟩ := exists_entries_at hfilled htuples
  refine ⟨houtcome, entries, hindices, fun entry hentry => (hentries entry hentry).2, ?_, ?_⟩
  · intro order hperm each
    obtain ⟨hsucceeds, heach⟩ := rewritten_sets order hfield hplaced hrequire hprepared hstorage
      hbytes hblocks hfilled (fun entry hentry => hentries entry (hperm.mem_iff.mp hentry))
      (by
        intro i hlt
        obtain ⟨entry, hentry, hposition⟩ := hall i hlt
        exact ⟨entry, hperm.mem_iff.mpr hentry, hposition⟩)
    exact ⟨hsucceeds, heach.agree hrewritten⟩
  · intro hsome
    obtain ⟨primitive, hprimitive⟩ := Option.isSome_iff_exists.mp hsome
    obtain ⟨rows, hrows, hpayload⟩ :=
      payload_fromNumbers hplaced.toArranged hmem hprimitive hfilled
    obtain ⟨hnumbers, hflat⟩ := hwhole (.fromNumbers rows.flatten) hpayload
    rw [← hvalues, List.mapM_map] at hrows
    exact ⟨rows, hrows, hnumbers, hflat.agree hrewritten⟩

/-- Two vectors in a tree without storage yet, set from the last one to the first. -/
theorem write_paths_agree_backwards :
    let now := (start (some 16) 0).after [.declare (.vector .i32 2) [2]]
    let nested : NdArray Value := .ofList [.vector [⟨0x3ff0000000000000⟩, ⟨0⟩],
      .vector [⟨0x4000000000000000⟩, ⟨0xbff0000000000000⟩]]
    ∃ entries : List (List Nat × Value), entries.map Prod.fst = [[0], [1]] ∧
      now.Succeeds (Command.sets 0 entries.reverse) ∧
      (now.after (Command.sets 0 entries.reverse)).host.memory.regions
        = (now.step (.update 0 (.fromArray nested))).host.memory.regions ∧
      (now.step (.update 0 (.fromArray nested))).host.memory.regions
        = [(⟨0⟩, [1, 0, 0, 0, 0, 0, 0, 0, 2, 0, 0, 0, 255, 255, 255, 255])] := by
  intro now nested
  obtain ⟨field, hfield, hready, hfilled, htuples⟩ : ∃ field, now.fields[0]? = some field ∧
      (now.host.program.isMaterialized field.tree = true ∨
        ∃ reply, now.outcome .materialize = .ok reply) ∧
      nested.Filled field.type.Conforms field.shape.dims ∧
      (Grid.tuples field.shape.dims : Outcome FieldError (List (List Nat)))
        = .ok [[0], [1]] := by
    refine ⟨_, rfl, Or.inr ⟨_, rfl⟩, ?_, rfl⟩
    refine ⟨rfl, ?_⟩
    intro item hmem
    rcases List.mem_cons.mp hmem with rfl | hmem
    · rfl
    · cases List.mem_singleton.mp hmem
      rfl
  obtain ⟨-, entries, hentries, -, hsets, -⟩ :=
    write_paths_agree (some 16) 0 _ 0 field nested _ hfield hready hfilled htuples
  obtain ⟨hsucceeds, -, hregions⟩ := hsets entries.reverse (List.reverse_perm entries)
  exact ⟨entries, hentries, hsucceeds, hregions, by decide +kernel⟩

end Ledger

end FieldStore
