/-
What moves between a host and its memory.

Every operation on a field moves one run of bytes, or none.  Storage may have to be obtained before
that; the hosts that this passes through are `Readied`, and nothing moves on the way to them.  The
transfer itself is one entry in the traffic of the memory.  It changes bytes, but neither the
program nor the identities of the regions.

A request that fails has failed before its transfer, with one exception: `toArray` gives its
elements their shape after it has read them, and the array may have no room.
-/
import FieldStore.Proofs.Store.Demand

namespace FieldStore

variable {fields : List Field} {host host' mid left : Host} {field : Field}

/-! ### Entries -/

/-- One transfer. -/
inductive Traffic.Entry
  | read (range : TransferRange)
  | write (range : TransferRange)

/-- The traffic with one more transfer. -/
def Traffic.note (traffic : Traffic) : Entry → Traffic
  | .read range => traffic.read range
  | .write range => traffic.write range

/-! ### Obtaining storage -/

/-- The hosts that a materialization passes through or ends with. -/
inductive Host.Readied (host : Host) : Host → Prop
  | untouched : Readied host host
  | supplied {given rest : List (Nat × Nat)} (hpending : host.program.pending = given ++ rest) :
      Readied host (host.closed.supply given)
  /-- The region of the next tree has used up an identity and found no room. -/
  | spent {given rest : List (Nat × Nat)} {entry : Nat × Nat}
      (hpending : host.program.pending = given ++ entry :: rest) :
      Readied host { host.closed.supply given with
        nextId := (host.closed.supply given).nextId + 1 }

namespace Host

theorem traffic_supply :
    ∀ (entries : List (Nat × Nat)) (host : Host),
      (host.supply entries).memory.traffic = host.memory.traffic := by
  intro entries
  induction entries with
  | nil => intro host; rfl
  | cons entry rest ih => intro host; exact ih (host.served entry.1 entry.2)

theorem Readied.traffic (h : host.Readied mid) : mid.memory.traffic = host.memory.traffic := by
  cases h with
  | untouched => rfl
  | supplied => exact traffic_supply _ _
  | spent => exact traffic_supply _ _

theorem Readied.eq_of_pending_nil (hnil : host.program.pending = []) (h : host.Readied mid) :
    mid = host := by
  cases h with
  | untouched => rfl
  | supplied hpending =>
      obtain ⟨rfl, -⟩ := List.append_eq_nil_iff.mp (hpending.symm.trans hnil)
      exact closed_of_pending_nil hnil
  | spent hpending =>
      rw [hnil] at hpending
      simp at hpending

theorem Falters.readied {failure : Failure FieldError} (h : host.Falters failure left) :
    host.Readied left := by
  obtain ⟨given, index, size, rest, hpending, -, hrefuses⟩ := h
  cases hrefuses with
  | limit => exact .supplied hpending
  | room => exact .spent hpending

/-- A materialization that has failed leaves trees that want storage. -/
theorem Falters.pending_ne_nil {failure : Failure FieldError} (h : Placed fields host)
    (hfalters : host.Falters failure left) : left.program.pending ≠ [] := by
  obtain ⟨given, index, size, rest, hpending, -, hrefuses⟩ := hfalters
  obtain ⟨-, hrest⟩ := kept_closed_supply h hpending
  have hne : (host.closed.supply given).program.pending ≠ [] := by
    rw [hrest]
    exact List.cons_ne_nil _ _
  cases hrefuses with
  | limit => exact hne
  | room => exact hne

end Host

theorem Demand.Met.readied {demand : Demand} {tree : Nat} (hmet : demand.Met host tree mid) :
    host.Readied mid := by
  cases hmet with
  | found => exact .untouched
  | made => exact .supplied (List.append_nil _).symm

theorem Demand.Unmet.readied {demand : Demand} {tree : Nat} {failure : Failure FieldError}
    (hunmet : demand.Unmet host tree failure left) : host.Readied left := by
  cases hunmet with
  | refused _ hfalters => exact hfalters.readied
  | absent => exact .supplied (List.append_nil _).symm

theorem Field.Halts.readied {offset length : Option Nat} {failure : Failure FieldError}
    (h : field.Halts offset length host failure left) : host.Readied left := by
  cases h with
  | range => exact .untouched
  | storage _ hunmet => exact hunmet.readied
  | address _ hmet => exact hmet.readied
  | device _ hmet => exact hmet.readied

/-! ### Transfers -/

/-- These transfers have been made, and that is all. -/
structure Host.Transfers (host : Host) (entries : List Traffic.Entry) (host' : Host) : Prop
    extends Host.Moved host host' where
  nextId : host'.nextId = host.nextId
  ids : host'.memory.regions.map Prod.fst = host.memory.regions.map Prod.fst
  traffic : host'.memory.traffic = entries.foldl Traffic.note host.memory.traffic

/-- Storage may have been obtained, and then these transfers have been made. -/
def Host.Performs (host : Host) (entries : List Traffic.Entry) (host' : Host) : Prop :=
  ∃ mid, host.Readied mid ∧ mid.Transfers entries host'

theorem map_fst_replace (id : TreeId) (bytes : List Byte) (regions : List (TreeId × List Byte)) :
    (HostMemory.replace id bytes regions).map Prod.fst = regions.map Prod.fst := by
  rw [HostMemory.replace, List.map_map]
  refine List.map_congr_left fun entry _ => ?_
  by_cases h : entry.1 = id
  · simp [h]
  · simp [h]

namespace Host

theorem transfers_nil (host : Host) : host.Transfers [] host :=
  { program := rfl, limit := rfl, nextId := rfl, ids := rfl, traffic := rfl }

theorem transfers_read (host : Host) (id : TreeId) (start count : Nat) :
    host.Transfers [.read ⟨id, start, count⟩]
      { host with memory := host.memory.afterRead id start count } :=
  { program := rfl, limit := rfl, nextId := rfl, ids := rfl, traffic := rfl }

theorem transfers_written (host : Host) (id : TreeId) (start : Nat) (words : List Word)
    (bytes : List Byte) :
    host.Transfers [.write ⟨id, start, words.length * wordBytes⟩]
      (host.written id start words bytes) :=
  { program := rfl, limit := rfl, nextId := rfl, ids := map_fst_replace .., traffic := rfl }

theorem Readied.performs (h : host.Readied left) : host.Performs [] left :=
  ⟨left, h, left.transfers_nil⟩

variable {entries : List Traffic.Entry}

theorem Performs.traffic (h : host.Performs entries left) :
    left.memory.traffic = entries.foldl Traffic.note host.memory.traffic := by
  obtain ⟨mid, hreadied, htransfers⟩ := h
  rw [htransfers.traffic, hreadied.traffic]

/-- On a host no tree of which wants storage nothing comes before the transfers. -/
theorem Performs.transfers (hnil : host.program.pending = []) (h : host.Performs entries left) :
    host.Transfers entries left := by
  obtain ⟨mid, hreadied, htransfers⟩ := h
  rwa [hreadied.eq_of_pending_nil hnil] at htransfers

end Host

/-! ### Fields -/

/-- The one transfer of a range of a field. -/
def Field.Moves (field : Field) (kind : TransferRange → Traffic.Entry) (range : Nat × Nat)
    (host host' : Host) : Prop :=
  ∃ id, host'.program.storage? field.tree = some id ∧
    host.Performs [kind ⟨id, field.offset + range.1, range.2⟩] host'

/-- What follows a materialization finds all the storage that there is. -/
theorem Field.Moves.after_all {kind : TransferRange → Traffic.Entry} {range : Nat × Nat}
    (hreadied : host.Readied mid) (hnil : mid.program.pending = [])
    (h : field.Moves kind range mid left) : field.Moves kind range host left := by
  obtain ⟨id, hstorage, hperforms⟩ := h
  exact ⟨id, hstorage, mid, hreadied, hperforms.transfers hnil⟩

theorem Field.ends_read_moves {offset length : Option Nat} (h : Placed fields host) :
    Host.Ends (field.read offset length) host
      (fun lanes host' => ∃ start count words, field.range offset length = .ok (start, count) ∧
        lanes = Lanes.ofWords words ∧ words.length * wordBytes = count ∧
        field.Moves .read (start, count) host host')
      (field.Halts offset length host) := by
  refine Host.ends_mono (ends_read_halts h) ?_ fun _ _ hhalts => hhalts
  intro lanes host' hend
  obtain ⟨start, count, id, mid, hrange, hmet, hstorage, ⟨words, hlanes, hlen⟩, rfl⟩ := hend
  exact ⟨start, count, words, hrange, hlanes, hlen, id, hstorage, mid, hmet.readied,
    mid.transfers_read ..⟩

theorem Field.ends_write_moves {words : List Word} {offset : Option Nat} (h : Placed fields host) :
    Host.Ends (field.write words offset) host
      (fun _ host' => field.Moves .write (offset.getD 0, words.length * wordBytes) host host')
      (fun _ left => host.Readied left) := by
  refine Host.ends_mono (ends_write_halts h) ?_ fun _ _ => Halts.readied
  intro _ host' hend
  obtain ⟨start, count, id, mid, hrange, hmet, hstorage, bytes, -, rfl⟩ := hend
  obtain ⟨rfl, -, -⟩ := range_eq_ok hrange
  exact ⟨id, hstorage, mid, hmet.readied, mid.transfers_written ..⟩

/-! ### Requests -/

/-- The range of the element at the given indices, as offset in the field and length. -/
def Field.elementRange (field : Field) (indices : List Nat) : Nat × Nat :=
  (Shape.rowMajor indices field.shape.dims * field.type.slotCount * wordBytes,
    field.type.slotCount * wordBytes)

/-- The range of a field that a query reads.  A struct field is not read for its numbers. -/
def Query.extent? (field : Field) : Query → Option (Nat × Nat)
  | read offset length => some (offset.getD 0, length.getD (field.size - offset.getD 0))
  | get indices => some (field.elementRange indices)
  | toArray => some (0, field.size)
  | toNumbers => field.type.primitive?.map fun _ => (0, field.size)

/-- The range of a field that an update writes. -/
def Update.extent (field : Field) : Update → Nat × Nat
  | write words offset => (offset.getD 0, words.length * wordBytes)
  | set indices _ => field.elementRange indices
  | fromArray _ | fromNumbers _ => (0, field.size)

theorem Field.byteRange_eq_elementRange {indices : List Nat} {range : Nat × Nat}
    (h : field.byteRange indices = .ok range) : range = field.elementRange indices := by
  obtain ⟨hoffset, hlength, -⟩ := byteRange_eq_ok h
  exact Prod.ext hoffset hlength

/-- An update hands as many words to the field as its range has. -/
theorem Update.extent_of_payload {change : Update} {words : List Word} {offset : Option Nat}
    (hsound : field.Sound) (hpayload : change.payload field = .ok (words, offset)) :
    change.extent field = (offset.getD 0, words.length * wordBytes) := by
  cases change with
  | write words' offset' =>
      cases hpayload
      rfl
  | set indices value =>
      rw [payload, bind_eq_ok] at hpayload
      obtain ⟨range, hrange, hpayload⟩ := hpayload
      rw [bind_eq_ok] at hpayload
      obtain ⟨words', hencode, hpayload⟩ := hpayload
      cases hpayload
      rw [extent, ← Field.byteRange_eq_elementRange hrange,
        ElementType.length_of_encodeWords hencode]
      obtain ⟨-, hlength, -⟩ := Field.byteRange_eq_ok hrange
      exact Prod.ext rfl hlength
  | fromArray nested =>
      rw [payload, bind_eq_ok] at hpayload
      obtain ⟨elements, hflatten, hpayload⟩ := hpayload
      rw [bind_eq_ok] at hpayload
      obtain ⟨words', hencode, hpayload⟩ := hpayload
      cases hpayload
      rw [Field.length_of_encodeElements hencode, NdArray.length_of_flatten hflatten, extent,
        hsound.size_eq]
      rfl
  | fromNumbers numbers =>
      rw [payload] at hpayload
      cases hprimitive : field.type.primitive? with
      | none =>
          rw [hprimitive] at hpayload
          cases hpayload
      | some primitive =>
          simp only [hprimitive] at hpayload
          by_cases hne : numbers.length * wordBytes ≠ field.size
          · rw [if_pos hne] at hpayload
            cases hpayload
          · rw [if_neg hne] at hpayload
            cases hpayload
            rw [extent, List.length_map, Decidable.not_not.mp hne]
            rfl

/-- What a query moves if it succeeds. -/
def Query.Moves (field : Field) (request : Query) (host host' : Host) : Prop :=
  match request.extent? field with
  | some range => field.Moves .read range host host'
  | none => host.Transfers [] host'

/-- How a query fails.  It has moved nothing, unless there was no room for the array that it was to
reply with. -/
inductive Query.Misses (field : Field) (host : Host) : Query → Failure FieldError → Host → Prop
  | before {request : Query} {failure : Failure FieldError} {left : Host}
      (hreadied : host.Readied left)
      (hwanting : request = .toArray → failure = .fault .capacity → left.program.pending ≠ []) :
      Misses field host request failure left
  | noRoom {left : Host} (hnil : left.program.pending = [])
      (hmoves : field.Moves .read (0, field.size) host left) :
      Misses field host .toArray (.fault .capacity) left

/-- A read that comes after a materialization has room. -/
theorem Field.Halts.ne_capacity {offset length : Option Nat} {failure : Failure FieldError}
    (hnil : mid.program.pending = []) (h : field.Halts offset length mid failure left) :
    failure ≠ .fault .capacity := by
  cases h with
  | range hrange =>
      rcases range_eq_error hrange with rfl | ⟨stop, rfl⟩
      · exact nofun
      · exact nofun
  | storage _ hunmet =>
      cases hunmet with
      | refused _ hfalters =>
          obtain ⟨given, index, size, rest, hpending, -⟩ := hfalters
          rw [hnil] at hpending
          simp at hpending
      | absent => exact nofun
  | address => exact nofun
  | device => exact nofun

theorem Field.ends_get_moves (indices : List Nat) (h : Placed fields host)
    (hsound : field.Sound) :
    Host.Ends (field.get indices) host
      (fun _ host' => field.Moves .read (field.elementRange indices) host host')
      (fun _ left => host.Readied left) := by
  unfold get
  rw [Host.ends_bind]
  refine Host.ends_lift ?_ fun _ _ => .untouched
  intro range hrange
  obtain ⟨offset, length⟩ := range
  rw [Host.ends_bind]
  refine Host.ends_mono (ends_read_moves h) ?_ fun _ _ hhalts => hhalts.readied
  intro lanes host' hend
  obtain ⟨start, count, words, hpart, rfl, hlen, hmoves⟩ := hend
  obtain ⟨rfl, rfl, -⟩ := range_eq_ok hpart
  rw [hsound.decode_element hrange hlen, Host.ends_ok, ← byteRange_eq_elementRange hrange]
  exact hmoves

/-- After its read, all that can go wrong with an array is that it has no room. -/
theorem Field.ends_toArray_moves (h : Placed fields host) (hsound : field.Sound) :
    Host.Ends field.toArray host
      (fun _ host' => field.Moves .read (0, field.size) host host')
      (Query.Misses field host .toArray) := by
  unfold toArray
  rw [Host.ends_bind]
  refine Host.ends_mono (Host.ends_materialize_supply h) ?_
    fun _ _ hfalters => .before hfalters.readied fun _ _ => hfalters.pending_ne_nil h
  intro _ mid hend
  obtain ⟨-, rfl⟩ := hend
  obtain ⟨hkept, hnil⟩ := Host.kept_closed_supply h (List.append_nil _).symm
  have hreadied : host.Readied (host.closed.supply host.program.pending) :=
    .supplied (List.append_nil _).symm
  rw [Host.ends_bind]
  refine Host.ends_mono (ends_read_moves hkept.placed) ?_ ?_
  · intro lanes host' hend
    obtain ⟨start, count, words, hwhole, rfl, hlen, hmoves⟩ := hend
    cases hsound.range_whole.symm.trans hwhole
    have hmoved : field.Moves .read (0, field.size) host host' := hmoves.after_all hreadied hnil
    rw [hsound.decodeAll hlen, Host.ends_bind, Host.ends_ok]
    refine Host.ends_lift (fun _ _ => hmoved) ?_
    intro failure hfailed
    cases hsound.reshape_eq_error hfailed
    refine .noRoom ?_ hmoved
    obtain ⟨id, -, hperforms⟩ := hmoves
    rw [(hperforms.transfers hnil).program, hnil]
  · intro failure left hhalts
    rw [hhalts.readied.eq_of_pending_nil hnil]
    exact .before hreadied fun _ hcapacity => absurd hcapacity (hhalts.ne_capacity hnil)

theorem Field.ends_toNumbers_moves (h : Placed fields host) (hsound : field.Sound) :
    Host.Ends field.toNumbers host (fun _ host' => Query.toNumbers.Moves field host host')
      (fun _ left => host.Readied left) := by
  unfold toNumbers Query.Moves Query.extent?
  cases field.type.primitive? with
  | none => exact { program := rfl, limit := rfl, nextId := rfl, ids := rfl, traffic := rfl }
  | some primitive =>
      show Host.Ends (field.read none none >>= _) host _ _
      rw [Host.ends_bind]
      refine Host.ends_mono (ends_read_moves h) ?_ fun _ _ hhalts => hhalts.readied
      intro lanes host' hend
      obtain ⟨start, count, words, hrange, -, -, hmoves⟩ := hend
      cases hsound.range_whole.symm.trans hrange
      exact hmoves

theorem ends_query_moves (request : Query) (h : Placed fields host) (hsound : field.Sound) :
    Host.Ends (request.run field) host (fun _ host' => request.Moves field host host')
      (Query.Misses field host request) := by
  cases request with
  | read offset length =>
      unfold Query.run
      rw [Host.ends_bind]
      refine Host.ends_mono (Field.ends_read_moves h) ?_
        fun _ _ hhalts => .before hhalts.readied nofun
      intro lanes host' hend
      obtain ⟨start, count, words, hrange, -, -, hmoves⟩ := hend
      obtain ⟨rfl, rfl, -⟩ := Field.range_eq_ok hrange
      exact hmoves
  | get indices =>
      unfold Query.run
      rw [Host.ends_bind]
      exact Host.ends_mono (Field.ends_get_moves indices h hsound) (fun _ _ hmoves => hmoves)
        fun _ _ hreadied => .before hreadied nofun
  | toArray =>
      unfold Query.run
      rw [Host.ends_bind]
      exact Field.ends_toArray_moves h hsound
  | toNumbers =>
      unfold Query.run
      rw [Host.ends_bind]
      exact Host.ends_mono (Field.ends_toNumbers_moves h hsound) (fun _ _ hmoves => hmoves)
        fun _ _ hreadied => .before hreadied nofun

theorem ends_update_moves (change : Update) (h : Placed fields host) (hsound : field.Sound) :
    Host.Ends (change.run field) host
      (fun _ host' => field.Moves .write (change.extent field) host host')
      (fun _ left => host.Readied left) := by
  rw [Update.run_eq, Host.ends_bind]
  refine Host.ends_lift ?_ fun _ _ => .untouched
  intro pair hpayload
  obtain ⟨words, offset⟩ := pair
  rw [Update.extent_of_payload hsound hpayload]
  exact Field.ends_write_moves h

end FieldStore
