/-
When a request on a field succeeds.

A request that is right for its field, because its indices are within the axes, its range is made
of whole words of the field and its values conform, can fail for one reason only: there is no
storage to be had.  The operations differ in what storage they want.  Reading or writing a range,
an element or the numbers wants that of the field's own tree, and materializes if there is none;
`toArray` materializes in any case.  Materializing serves all trees or fails, so even a tree small
enough to be granted stays without storage for as long as an earlier one is refused.
-/
import FieldStore.Proofs.Store.Contents
import FieldStore.Proofs.Store.Granting

namespace FieldStore

variable {fields : List Field} {host : Host} {field : Field}

/-! ### Ranges of whole words -/

/-- Whether a range consists of whole words of the field. -/
structure Field.Covers (field : Field) (offset length : Option Nat) : Prop where
  offset_aligned : offset.getD 0 % wordBytes = 0
  length_aligned : length.getD (field.size - offset.getD 0) % wordBytes = 0
  fits : offset.getD 0 + length.getD (field.size - offset.getD 0) ≤ field.size

/-- The end of a field has an address. -/
theorem Arranged.end_lt {trees : List Tree} (h : Arranged fields trees) (hmem : field ∈ fields) :
    field.offset + field.size < Size.bound := by
  obtain ⟨tree, hget, hoffset, hsize, hbound⟩ := h.place hmem
  rw [Nat.add_mul, ← hoffset, ← hsize] at hbound
  exact Nat.lt_of_le_of_lt hbound (h.addressed _ tree hget)

/-- The elements of a field can be counted. -/
theorem Arranged.prod_lt {trees : List Tree} (h : Arranged fields trees) (hmem : field ∈ fields) :
    field.shape.dims.prod < Size.bound := by
  obtain ⟨hcheck, -⟩ := h.valid field hmem
  have hend := h.end_lt hmem
  have hle : field.shape.dims.prod ≤ field.size := by
    rw [h.size_eq field hmem, Nat.mul_assoc]
    exact Nat.le_mul_of_pos_right _ (Nat.mul_pos (ElementType.slotCount_pos hcheck) wordBytes_pos)
  omega

/-- The whole field is made of whole words. -/
theorem Arranged.covers_whole {trees : List Tree} (h : Arranged fields trees)
    (hmem : field ∈ fields) : field.Covers none none := by
  refine ⟨rfl, ?_, by simp⟩
  rw [Option.getD_none, Option.getD_none, Nat.sub_zero, h.size_eq field hmem, Nat.mul_mod_left]

namespace Field

theorem range_of_covers {offset length : Option Nat} (hbound : field.size < Size.bound)
    (hcovers : field.Covers offset length) :
    field.range offset length
      = .ok (offset.getD 0, length.getD (field.size - offset.getD 0)) :=
  range_of_stop_le hbound hcovers.fits

/-- A range that could be transferred consists of whole words of the field. -/
theorem covers_of_range {offset length : Option Nat} {trees : List Tree} {start count size : Nat}
    (h : Arranged fields trees) (hmem : field ∈ fields)
    (hrange : field.range offset length = .ok (start, count))
    (hcheck : checkRange (field.offset + start) count size = .ok ()) :
    field.Covers offset length := by
  obtain ⟨-, -, hoffset, -, -⟩ := h.place hmem
  obtain ⟨hstart, hcount⟩ := Host.aligned_of_range hoffset hcheck
  obtain ⟨hstart', hcount', hfits⟩ := range_eq_ok hrange
  refine ⟨?_, ?_, ?_⟩
  · rw [← hstart', hstart, Nat.mul_mod_left]
  · rw [← hcount', hcount, Nat.mul_mod_left]
  · rwa [← hcount', ← hstart']

/-- The element at some indices within the axes is made of whole words of the field. -/
theorem byteRange_of_within {indices : List Nat} {trees : List Tree} (h : Arranged fields trees)
    (hmem : field ∈ fields) (hwithin : Shape.Within indices field.shape.dims) :
    ∃ offset length, field.byteRange indices = .ok (offset, length) ∧
      field.Covers (some offset) (some length) := by
  obtain ⟨-, hfits⟩ := h.valid field hmem
  have hend := h.end_lt hmem
  -- The elements fill the field, so the end of one is no further than the end of the field.
  have hstop : (Shape.rowMajor indices field.shape.dims + 1) * (field.type.slotCount * wordBytes)
      ≤ field.size := by
    rw [h.size_eq field hmem, Nat.mul_assoc]
    exact Nat.mul_le_mul_right _ (Shape.rowMajor_lt hwithin)
  rw [Nat.succ_mul] at hstop
  refine ⟨Shape.rowMajor indices field.shape.dims * (field.type.slotCount * wordBytes),
    field.type.slotCount * wordBytes, ?_, ?_, ?_, hstop⟩
  · rw [byteRange, bind_eq_ok]
    refine ⟨_, Shape.flatIndex_of_within hwithin (h.prod_lt hmem), ?_⟩
    rw [bind_eq_ok]
    refine ⟨field.type.slotCount * wordBytes, ?_, ?_⟩
    · rw [elementSize, ElementType.byteSize, ElementType.slotTotal_of_le hfits]
      rfl
    · rw [bind_eq_ok]
      exact ⟨_, Size.mul_eq_ok_iff.mpr ⟨rfl, by omega⟩, rfl⟩
  · rw [Option.getD_some, ← Nat.mul_assoc, Nat.mul_mod_left]
  · rw [Option.getD_some, Nat.mul_mod_left]

/-! ### Transfers -/

/-- The region of the field's tree has the range, and lets it be transferred. -/
theorem region_of_covers {offset length : Option Nat} {id : TreeId} (h : Placed fields host)
    (hmem : field ∈ fields) (hcovers : field.Covers offset length)
    (hstorage : host.program.storage? field.tree = some id) :
    ∃ bytes, host.memory.region? id = some bytes ∧
      checkRange (field.offset + offset.getD 0) (length.getD (field.size - offset.getD 0))
        bytes.length = .ok () := by
  obtain ⟨tree, hget, hoffset, hsize, hbound⟩ := h.place hmem
  rw [Host.storage?_of_get hget] at hstorage
  obtain ⟨bytes, hbytes, hlen, -⟩ := Host.region_of_storage h hget hstorage
  have hfits := hcovers.fits
  have hend := h.toArranged.end_lt hmem
  refine ⟨bytes, hbytes, checkRange_eq_ok_iff.mpr ⟨?_, hcovers.length_aligned, by omega, ?_⟩⟩
  · rw [Nat.add_mod, h.aligned field hmem, hcovers.offset_aligned]
    rfl
  · rw [Nat.add_mul, ← hoffset, ← hsize] at hbound
    omega

/-- An access to a range that the field covers may end at the storage or with the transfer. -/
theorem ends_access_of_covers {α : Type} {offset length : Option Nat}
    {transfer : TreeId → Nat → Nat → HostM DeviceError α} {Q : α → Host → Prop}
    {E : Failure FieldError → Host → Prop} (hend : field.offset + field.size < Size.bound)
    (hcovers : field.Covers offset length) (S : TreeId → Host → Prop)
    (hstorage : Host.Ends (Host.requireStorage field.tree) host S E)
    (htransfer : ∀ id mid, S id mid →
      Host.Ends (transfer id (field.offset + offset.getD 0)
          (length.getD (field.size - offset.getD 0))) mid Q
        fun failure => E (failure.map FieldError.device)) :
    Host.Ends (field.access offset length transfer) host Q E := by
  have hrange := range_of_covers (by omega) hcovers
  refine ends_access (fun _ _ => S) ?_ (fun _ _ _ => hstorage) ?_ ?_
  · intro failure hfailed
    rw [hrange] at hfailed
    cases hfailed
  · intro start count id mid hok _ hbound
    obtain ⟨-, -, hle⟩ := range_eq_ok hok
    omega
  · intro start count id mid hok hmid
    obtain ⟨rfl, rfl, -⟩ := range_eq_ok hok
    exact htransfer id mid hmid

/-- Once the range has been checked, an access succeeds if and only if the tree is served. -/
theorem ends_access_serves {α : Type} {offset length : Option Nat}
    (transfer : TreeId → Nat → Nat → HostM DeviceError α) (h : Placed fields host)
    (hmem : field ∈ fields) (hcovers : field.Covers offset length)
    (htransfer : ∀ (id : TreeId) (host' : Host) (bytes : List Byte),
      host'.memory.region? id = some bytes →
      checkRange (field.offset + offset.getD 0) (length.getD (field.size - offset.getD 0))
        bytes.length = .ok () →
      Host.Ends (transfer id (field.offset + offset.getD 0)
          (length.getD (field.size - offset.getD 0))) host' (fun _ _ => True)
        fun _ _ => False) :
    Host.Ends (field.access offset length transfer) host
      (fun _ _ => host.Serves field.tree) (host.Unserved (host.Serves field.tree)) := by
  refine ends_access_of_covers (h.toArranged.end_lt hmem) hcovers (fun id mid =>
    (Host.Kept fields host mid ∧ mid.program.storage? field.tree = some id) ∧
      host.Serves field.tree) ?_ ?_
  · exact Host.ends_mono (Host.ends_and (Host.ends_requireStorage h)
      (Host.ends_requireStorage_serves h (h.tree_lt field hmem))) (fun _ _ hends => hends)
      fun _ _ hends => hends.2
  · intro id mid hends
    obtain ⟨⟨hkept, hstorage⟩, hserves⟩ := hends
    obtain ⟨bytes, hbytes, hcheck⟩ := region_of_covers hkept.placed hmem hcovers hstorage
    exact Host.ends_mono (htransfer id mid bytes hbytes hcheck) (fun _ _ _ => hserves)
      fun _ _ => False.elim

/-- A range of whole words is read if and only if the tree of the field is served. -/
theorem ends_read_serves {offset length : Option Nat} (h : Placed fields host)
    (hmem : field ∈ fields) (hcovers : field.Covers offset length) :
    Host.Ends (field.read offset length) host (fun _ _ => host.Serves field.tree)
      (host.Unserved (host.Serves field.tree)) := by
  rw [read_eq_access]
  refine ends_access_serves _ h hmem hcovers ?_
  intro id host' bytes hbytes hcheck
  exact Host.ends_readRegion_of_range hbytes hcheck trivial

/-- Words that cover a range are written if and only if the tree of the field is served. -/
theorem ends_write_serves {words : List Word} {offset : Option Nat} (h : Placed fields host)
    (hmem : field ∈ fields) (hcovers : field.Covers offset (some (words.length * wordBytes))) :
    Host.Ends (field.write words offset) host (fun _ _ => host.Serves field.tree)
      (host.Unserved (host.Serves field.tree)) := by
  rw [write_eq_access]
  refine ends_access_serves (fun id place _ => Host.writeRegion id place words) h hmem hcovers ?_
  intro id host' bytes hbytes hcheck
  exact Host.ends_writeRegion_of_range hbytes hcheck trivial

end Field

/-! ### Requests -/

/-- Whether a query is right for a field. -/
def Query.Valid (field : Field) : Query → Prop
  | read offset length => field.Covers offset length
  | get indices => Shape.Within indices field.shape.dims
  | toArray => NdArray.Foldable field.shape.dims
  | toNumbers => field.type.primitive?.isSome = true

/-- Whether an update is right for a field. -/
def Update.Valid (field : Field) : Update → Prop
  | write words offset => field.Covers offset (some (words.length * wordBytes))
  | set indices value => Shape.Within indices field.shape.dims ∧ field.type.Conforms value
  | fromArray nested => ∃ elements, nested.flatten field.shape.dims = .ok elements ∧
      ∀ value ∈ elements, field.type.Conforms value
  | fromNumbers numbers =>
      field.type.primitive?.isSome = true ∧ numbers.length * wordBytes = field.size

/-- Whether the storage that a query wants is there or to be had. -/
def Query.Served (host : Host) (field : Field) : Query → Prop
  | toArray => host.GrantsAll
  | read _ _ | get _ | toNumbers => host.Serves field.tree

/-- The words of a field as the elements of its type. -/
def Field.elements (field : Field) (words : List Word) : List Value :=
  (List.range field.shape.dims.prod).map fun position =>
    field.type.held (Lanes.ofWords (field.elementWords words position))

theorem decodeWords_elementWords {words : List Word} {position : Nat}
    (hfits : field.type.slotCount ≤ Size.objectLimit) (hlen : words.length = field.wordCount)
    (hlt : position < field.shape.dims.prod) :
    field.type.decodeWords (field.elementWords words position)
      = .ok (field.type.held (Lanes.ofWords (field.elementWords words position))) := by
  have hroom : (position + 1) * field.type.slotCount ≤ words.length := by
    rw [hlen]
    exact Nat.mul_le_mul_right _ hlt
  rw [Nat.succ_mul] at hroom
  exact ElementType.decodeWords_eq hfits (length_window hroom)

theorem mapM_decodeWords {words : List Word} (hfits : field.type.slotCount ≤ Size.objectLimit)
    (hlen : words.length = field.wordCount) :
    ((List.range field.shape.dims.prod).map (field.elementWords words)).mapM
      field.type.decodeWords = .ok (field.elements words) := by
  rw [List.mapM_map]
  refine mapM_eq_ok_map ?_
  intro position hmem
  exact decodeWords_elementWords hfits hlen (List.mem_range.mp hmem)

theorem decodeAll_words {words : List Word} (hcheck : field.type.check = .ok ())
    (hfits : field.type.slotCount ≤ Size.objectLimit) (hlen : words.length = field.wordCount) :
    field.type.decodeAll (Lanes.ofWords words) = .ok (field.elements words) := by
  rw [ElementType.decodeAll_ofWords (ElementType.slotCount_pos hcheck) hfits hlen]
  exact mapM_decodeWords hfits hlen

/-- A range of whole words that is read yields what the field holds there. -/
theorem Field.ends_read_served {offset length : Option Nat} (h : Placed fields host)
    (hmem : field ∈ fields) (hcovers : field.Covers offset length) :
    Host.Ends (field.read offset length) host
      (fun lanes host' => host.Serves field.tree ∧ Placed fields host' ∧
        field.Reads offset length host' lanes) (host.Unserved (host.Serves field.tree)) := by
  refine Host.ends_mono (Host.ends_and (ends_read h) (ends_read_serves h hmem hcovers)) ?_
    fun _ _ hend => hend.2
  intro lanes host' hend
  exact ⟨hend.2, hend.1.1.placed, hend.1.2⟩

/-- The words of an element can be decoded, whatever they are. -/
theorem Field.ends_get_served {indices : List Nat} (h : Placed fields host) (hmem : field ∈ fields)
    (hwithin : Shape.Within indices field.shape.dims) :
    Host.Ends (field.get indices) host (fun _ _ => host.Serves field.tree)
      (host.Unserved (host.Serves field.tree)) := by
  obtain ⟨-, hfits⟩ := h.valid field hmem
  obtain ⟨offset, length, hrange, hcovers⟩ := byteRange_of_within h.toArranged hmem hwithin
  unfold get
  rw [Host.ends_bind, hrange, Host.ends_ok, Host.ends_bind]
  refine Host.ends_mono (ends_read_served h hmem hcovers) ?_ fun _ _ hend => hend
  intro lanes host' hend
  obtain ⟨hserves, hplaced, hreads⟩ := hend
  obtain ⟨rfl, rfl, hlt⟩ := byteRange_eq_ok hrange
  have hlanes := Host.lanes_of_reads hplaced hmem hreads
  rw [Option.getD_some, Option.getD_some, Nat.mul_div_cancel _ wordBytes_pos,
    Nat.mul_div_cancel _ wordBytes_pos] at hlanes
  have hvalue := decodeWords_elementWords hfits (Host.length_held hplaced hmem) hlt
  rw [ElementType.decodeWords, elementWords, ← hlanes] at hvalue
  rw [hvalue, Host.ends_ok]
  exact hserves

/-- All elements are read if every tree is granted its storage and the array has room. -/
theorem Field.ends_toArray_room (h : Placed fields host) (hmem : field ∈ fields) :
    Host.Ends field.toArray host (fun _ _ => host.GrantsAll) fun failure host' =>
      host.Unserved host.GrantsAll failure host' ∨
        failure = .fault .capacity ∧ ¬ NdArray.Foldable field.shape.dims := by
  obtain ⟨hcheck, hfits⟩ := h.valid field hmem
  unfold toArray
  rw [Host.ends_bind]
  refine Host.ends_mono (Host.ends_and (Host.ends_materialize h)
    (Host.ends_materialize_supply h)) ?_
    fun _ _ hend => Or.inl ⟨hend.2.not_grantsAll, hend.2⟩
  intro _ prepared hend
  obtain ⟨⟨hkept, hobtained⟩, hgrants, -⟩ := hend
  -- The tree of the field has storage now, whether or not it had some before.
  have hserves : prepared.Serves field.tree := Or.inl (hobtained _ (h.tree_lt field hmem))
  rw [Host.ends_bind]
  refine Host.ends_mono (ends_read_served hkept.placed hmem (h.toArranged.covers_whole hmem)) ?_
    fun _ _ hno => absurd hserves hno.1
  intro lanes host' hend
  obtain ⟨-, hplaced, hreads⟩ := hend
  have hlen := Host.length_held hplaced hmem
  have hcount : (field.elements (host'.held field)).length = field.shape.dims.prod := by
    simp [elements]
  have hbound := h.toArranged.prod_lt hmem
  rw [Host.lanes_of_reads_whole hplaced hmem hreads, decodeAll_words hcheck hfits hlen,
    Host.ends_bind, Host.ends_ok]
  refine Host.ends_lift (fun _ _ => hgrants) ?_
  intro failure hfailed
  refine Or.inr ⟨NdArray.reshape_eq_error field.shape.dims_ne_nil field.shape.dims_pos hbound hcount
    hfailed, ?_⟩
  intro hfoldable
  obtain ⟨nested, hnested⟩ := NdArray.reshape_of_foldable (field.elements (host'.held field))
    field.shape.dims_ne_nil field.shape.dims_pos hbound hcount hfoldable
  rw [hnested] at hfailed
  cases hfailed

/-- All elements are read if and only if every tree is granted its storage. -/
theorem Field.ends_toArray_served (h : Placed fields host) (hmem : field ∈ fields)
    (hfoldable : NdArray.Foldable field.shape.dims) :
    Host.Ends field.toArray host (fun _ _ => host.GrantsAll)
      (host.Unserved host.GrantsAll) := by
  refine Host.ends_mono (ends_toArray_room h hmem) (fun _ _ => id) ?_
  rintro failure host' (hunserved | ⟨-, hno⟩)
  · exact hunserved
  · exact absurd hfoldable hno

/-- **A query that is right for its field succeeds if and only if its storage is to be had.** -/
theorem ends_query_served {request : Query} (h : Placed fields host) (hmem : field ∈ fields)
    (hvalid : request.Valid field) :
    Host.Ends (request.run field) host (fun _ _ => request.Served host field)
      (host.Unserved (request.Served host field)) := by
  cases request with
  | read offset length =>
      unfold Query.run
      rw [Host.ends_bind]
      exact Field.ends_read_serves h hmem hvalid
  | get indices =>
      unfold Query.run
      rw [Host.ends_bind]
      exact Field.ends_get_served h hmem hvalid
  | toArray =>
      unfold Query.run
      rw [Host.ends_bind]
      exact Field.ends_toArray_served h hmem hvalid
  | toNumbers =>
      obtain ⟨primitive, hprimitive⟩ := Option.isSome_iff_exists.mp hvalid
      unfold Query.run Field.toNumbers
      rw [Host.ends_bind]
      simp only [hprimitive]
      rw [Host.ends_bind]
      exact Field.ends_read_serves h hmem (h.toArranged.covers_whole hmem)

/-! ### Updates -/

/-- Conforming values are encoded one after the other. -/
theorem Field.encodeElements_eq {ty : ElementType} (hfits : ty.slotCount ≤ Size.objectLimit) :
    ∀ {values : List Value}, (∀ value ∈ values, ty.Conforms value) →
      encodeElements ty values = .ok (values.flatMap ty.words) := by
  intro values
  induction values with
  | nil => intro _; rfl
  | cons value rest ih =>
      intro h
      have hrest := ih fun other hmem => h other (List.mem_cons_of_mem _ hmem)
      rw [encodeElements, ElementType.encodeWords_eq hfits (h value List.mem_cons_self), hrest]
      rfl

/-- An update writes its words, once they are there. -/
theorem Update.run_eq_write {change : Update} {words : List Word} {offset : Option Nat}
    (hpayload : change.payload field = .ok (words, offset)) :
    change.run field = field.write words offset := by
  rw [run_eq, hpayload]
  rfl

/-- An update that is right for its field has words for a range of it. -/
theorem Update.payload_of_valid {change : Update} {trees : List Tree} (h : Arranged fields trees)
    (hmem : field ∈ fields) (hvalid : change.Valid field) :
    ∃ words offset, change.payload field = .ok (words, offset) ∧
      field.Covers offset (some (words.length * wordBytes)) := by
  obtain ⟨-, hfits⟩ := h.valid field hmem
  -- As many words as the field has.
  have hwhole : ∀ words : List Word, words.length * wordBytes = field.size →
      field.Covers none (some (words.length * wordBytes)) := by
    intro words hlen
    exact ⟨rfl, Nat.mul_mod_left .., by simp [hlen]⟩
  cases change with
  | write words offset => exact ⟨words, offset, rfl, hvalid⟩
  | set indices value =>
      obtain ⟨hwithin, hconforms⟩ := hvalid
      obtain ⟨offset, length, hrange, hcovers⟩ := Field.byteRange_of_within h hmem hwithin
      refine ⟨field.type.words value, some offset, ?_, ?_⟩
      · rw [payload, hrange, ElementType.encodeWords_eq hfits hconforms]
        rfl
      · obtain ⟨-, rfl, -⟩ := Field.byteRange_eq_ok hrange
        rwa [ElementType.length_words _ _ hconforms]
  | fromArray nested =>
      obtain ⟨elements, hflatten, hconform⟩ := hvalid
      have hencode := Field.encodeElements_eq hfits hconform
      refine ⟨elements.flatMap field.type.words, none, ?_, hwhole _ ?_⟩
      · rw [payload]
        exact bind_eq_ok.mpr ⟨elements, hflatten, bind_eq_ok.mpr ⟨_, hencode, rfl⟩⟩
      · rw [Field.length_of_encodeElements hencode, NdArray.length_of_flatten hflatten,
          h.size_eq field hmem]
  | fromNumbers numbers =>
      obtain ⟨hprimitive, hlen⟩ := hvalid
      obtain ⟨primitive, hprimitive⟩ := Option.isSome_iff_exists.mp hprimitive
      refine ⟨numbers.map primitive.toWord, none, ?_, hwhole _ ?_⟩
      · have hsame : ¬ numbers.length * wordBytes ≠ field.size := fun hc => hc hlen
        simp only [payload, hprimitive]
        exact if_neg hsame
      · rw [List.length_map, hlen]

/-- **An update that is right for its field succeeds if and only if the tree of the field is
served.** -/
theorem ends_update_serves {change : Update} (h : Placed fields host) (hmem : field ∈ fields)
    (hvalid : change.Valid field) :
    Host.Ends (change.run field) host (fun _ _ => host.Serves field.tree)
      (host.Unserved (host.Serves field.tree)) := by
  obtain ⟨words, offset, hpayload, hcovers⟩ :=
    Update.payload_of_valid h.toArranged hmem hvalid
  rw [Update.run_eq_write hpayload]
  exact Field.ends_write_serves h hmem hcovers

end FieldStore
