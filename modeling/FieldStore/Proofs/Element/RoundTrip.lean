/-
Encoding and decoding undo each other, in both directions.

A conforming value comes back as the value it is stored as, and a run of words comes back as the
same words unless a floating-point slot holds a signalling NaN.  Both are shown between `words`
and `held`, where lengths and bounds play no part any more; what is left is that the slice a
struct hands to a property is the slice that the property was written to.

A word is `Settled` in its slot when reading it and storing what was read gives it back.  Words
without NaNs are settled, and so are the words of every value, since a number that has been
converted once is converted to the same word again.  The second fact makes storing idempotent.
-/
import FieldStore.Proofs.Element.Decode
import FieldStore.Proofs.Element.Encode

namespace FieldStore.ElementType

/-- Whether reading the words in their slots and storing what was read gives them back. -/
def Settled (slots : List Primitive) (words : List Word) : Prop :=
  ∀ slot ∈ slots.zip words, slot.1.toWord (slot.1.ofWord slot.2) = slot.2

/-- Whether no word in a floating-point slot is a NaN. -/
def NaNFree (ty : ElementType) (words : List Word) : Prop :=
  ∀ slot ∈ ty.slots.zip words, slot.1 = .f32 → (Binary32.ofWord slot.2).isNaN = false

theorem NaNFree.settled {ty : ElementType} {words : List Word} (h : ty.NaNFree words) :
    Settled ty.slots words :=
  fun slot hmem => Primitive.toWord_ofWord (h slot hmem)

theorem settled_replicate_iff {p : Primitive} :
    ∀ {n : Nat} {words : List Word}, words.length = n →
      (Settled (List.replicate n p) words ↔ ∀ w ∈ words, p.toWord (p.ofWord w) = w) := by
  intro n words hlen
  subst hlen
  induction words with
  | nil => simp [Settled]
  | cons w rest ih =>
      simp only [Settled, List.length_cons, List.replicate_succ, List.zip_cons_cons,
        List.forall_mem_cons] at ih ⊢
      rw [ih]

theorem settled_append_iff {slots slots' : List Primitive} {words words' : List Word}
    (hlen : slots.length = words.length) :
    Settled (slots ++ slots') (words ++ words') ↔ Settled slots words ∧ Settled slots' words' := by
  simp only [Settled, List.zip_append hlen, List.mem_append]
  constructor
  · exact fun h => ⟨fun slot hmem => h slot (Or.inl hmem), fun slot hmem => h slot (Or.inr hmem)⟩
  · rintro ⟨hl, hr⟩ slot (hmem | hmem)
    · exact hl slot hmem
    · exact hr slot hmem

theorem cut_ofWords (start count : Nat) (words : List Word) :
    (Lanes.ofWords words).cut start count = Lanes.ofWords (window start count words) := by
  simp only [Lanes.cut, Lanes.ofWords, map_window]

/-! ### What was read conforms -/

theorem map_fst_heldEntries : ∀ (properties : List (String × ElementType)) (start : Nat)
    (lanes : Lanes), (heldEntries properties start lanes).map Prod.fst = properties.map Prod.fst
  | [], _, _ => rfl
  | (name, ty) :: rest, start, lanes => by
      rw [heldEntries, List.map_cons, List.map_cons,
        map_fst_heldEntries rest (start + ty.slotCount) lanes]

/-- The record of a struct answers every declared name with what its slice holds. -/
theorem lookup_heldEntries {properties : List (String × ElementType)}
    (hnames : (properties.map Prod.fst).Nodup) (lanes : Lanes) :
    ∀ entry ∈ heldEntries properties 0 lanes,
      (Entries.ofList (heldEntries properties 0 lanes)).lookup entry.1 = some entry.2 :=
  fun _ hmem => Entries.lookup_ofList_of_mem
    (by rw [map_fst_heldEntries]; exact hnames) hmem

mutual
/-- A well-formed type reads a conforming value off every run of the right length. -/
theorem conforms_held : ∀ (ty : ElementType) (lanes : Lanes), ty.check = .ok () →
    lanes.ints.length = ty.slotCount → lanes.floats.length = ty.slotCount →
      ty.Conforms (ty.held lanes)
  | scalar _, _, _, _, _ => trivial
  | vector p _, _, _, hints, hfloats => length_numbers hints hfloats p
  | matrix p rows cols, lanes, hvalid, hints, hfloats => by
      obtain ⟨-, hcols⟩ := check_matrix_iff.mp hvalid
      obtain ⟨hlen, hrows, -⟩ := Grid.chunks_spec hcols (length_numbers hints hfloats p)
      exact ⟨hlen, hrows⟩
  | struct properties, lanes, hvalid, hints, hfloats => by
      obtain ⟨hall, -, hnames⟩ := check_struct_iff.mp hvalid
      exact conformAll_held properties 0 lanes _ hall (by rw [hints, slotCount, Nat.zero_add])
        (by rw [hfloats, slotCount, Nat.zero_add]) (lookup_heldEntries hnames lanes)

theorem conformAll_held : ∀ (properties : List (String × ElementType)) (start : Nat)
    (lanes : Lanes) (entries : Entries Value), checkProperties properties = .ok () →
      start + propertySlotCount properties ≤ lanes.ints.length →
      start + propertySlotCount properties ≤ lanes.floats.length →
      (∀ entry ∈ heldEntries properties start lanes, entries.lookup entry.1 = some entry.2) →
        ConformAll properties entries
  | [], _, _, _, _, _, _, _ => trivial
  | (name, ty) :: rest, start, lanes, entries, hvalid, hints, hfloats, hlookup => by
      obtain ⟨hty, hrest⟩ := checkProperties_cons_iff.mp hvalid
      rw [propertySlotCount] at hints hfloats
      rw [heldEntries, List.forall_mem_cons] at hlookup
      refine ⟨⟨_, hlookup.1, conforms_held ty _ hty (length_window (by omega))
        (length_window (by omega))⟩, ?_⟩
      exact conformAll_held rest (start + ty.slotCount) lanes entries hrest (by omega) (by omega)
        hlookup.2
end

/-! ### From words to words -/

mutual
/-- Settled words are the words of the value that they hold. -/
theorem words_held : ∀ (ty : ElementType) (words : List Word), ty.check = .ok () →
    words.length = ty.slotCount → Settled ty.slots words →
      ty.words (ty.held (Lanes.ofWords words)) = words
  | scalar p, ws, _, hlen, hsettled => by
      obtain ⟨w, rfl⟩ := List.length_eq_one_iff.mp hlen
      have hw : p.toWord (p.ofWord w) = w := hsettled (p, w) (by simp [slots])
      rw [held, Lanes.numbers_ofWords, words]
      simp [hw]
  | vector p rows, ws, _, hlen, hsettled => by
      have hall := (settled_replicate_iff hlen).mp hsettled
      rw [held, Lanes.numbers_ofWords, words, List.map_map]
      exact (List.map_congr_left hall).trans (List.map_id' ws)
  | matrix p rows cols, ws, hvalid, hlen, hsettled => by
      obtain ⟨-, hcols⟩ := check_matrix_iff.mp hvalid
      have hall := (settled_replicate_iff hlen).mp hsettled
      have hnumbers : (ws.map p.ofWord).length = rows * cols := (List.length_map _).trans hlen
      obtain ⟨-, -, hflat⟩ := Grid.chunks_spec hcols hnumbers
      rw [held, Lanes.numbers_ofWords, words, hflat, List.map_map]
      exact (List.map_congr_left hall).trans (List.map_id' ws)
  | struct properties, ws, hvalid, hlen, hsettled => by
      obtain ⟨hall, -, hnames⟩ := check_struct_iff.mp hvalid
      exact propertyWords_held properties [] ws _ hall hlen hsettled
        (lookup_heldEntries hnames (Lanes.ofWords ws))

/-- The same for the properties, behind the words of those that came before. -/
theorem propertyWords_held : ∀ (properties : List (String × ElementType))
    (front words : List Word) (entries : Entries Value), checkProperties properties = .ok () →
      words.length = propertySlotCount properties → Settled (propertySlots properties) words →
      (∀ entry ∈ heldEntries properties front.length (Lanes.ofWords (front ++ words)),
        entries.lookup entry.1 = some entry.2) →
        propertyWords properties entries = words
  | [], _, ws, _, _, hlen, _, _ => (List.eq_nil_of_length_eq_zero hlen).symm
  | (name, ty) :: rest, front, ws, entries, hvalid, hlen, hsettled, hlookup => by
      obtain ⟨hty, hrest⟩ := checkProperties_cons_iff.mp hvalid
      rw [propertySlotCount] at hlen
      obtain ⟨own, others, rfl, hown⟩ : ∃ own others, ws = own ++ others ∧
          own.length = ty.slotCount :=
        ⟨ws.take ty.slotCount, ws.drop ty.slotCount, (List.take_append_drop ..).symm, by
          rw [List.length_take]
          omega⟩
      rw [List.length_append, hown] at hlen
      rw [propertySlots, settled_append_iff (by rw [length_slots, hown])] at hsettled
      rw [heldEntries, List.forall_mem_cons] at hlookup
      have hwindow : window front.length ty.slotCount (front ++ (own ++ others)) = own := by
        rw [← List.append_assoc]
        exact window_append rfl hown
      have hvalue : entries.lookup name = some (ty.held (Lanes.ofWords own)) := by
        rw [← hwindow, ← cut_ofWords]
        exact hlookup.1
      have hothers : propertyWords rest entries = others := by
        refine propertyWords_held rest (front ++ own) others entries hrest (by omega)
          hsettled.2 ?_
        rw [List.length_append, hown, List.append_assoc]
        exact hlookup.2
      rw [propertyWords, hvalue, hothers]
      exact congrArg (· ++ others) (words_held ty own hty hown hsettled.1)
end

/-! ### From values to values -/

theorem settled_map (p : Primitive) (xs : List Binary64) :
    ∀ w ∈ xs.map p.toWord, p.toWord (p.ofWord w) = w := by
  intro w hw
  obtain ⟨x, -, rfl⟩ := List.mem_map.mp hw
  rw [Primitive.ofWord_toWord, Primitive.toWord_stored]

theorem map_ofWord_toWord (p : Primitive) (xs : List Binary64) :
    (xs.map p.toWord).map p.ofWord = xs.map p.stored := by
  rw [List.map_map]
  exact List.map_congr_left fun x _ => Primitive.ofWord_toWord p x

mutual
theorem settled_words : ∀ (ty : ElementType) (value : Value), ty.Conforms value →
    Settled ty.slots (ty.words value)
  | scalar p, .number x, _ => (settled_replicate_iff (n := 1) rfl).mpr (settled_map p [x])
  | vector p _, .vector xs, h =>
      (settled_replicate_iff ((List.length_map _).trans h)).mpr (settled_map p xs)
  | matrix p rows cols, .matrix lines, h =>
      (settled_replicate_iff (length_words (matrix p rows cols) (.matrix lines) h)).mpr
        (settled_map p lines.flatten)
  | struct properties, .record entries, h => settled_propertyWords properties entries h

theorem settled_propertyWords : ∀ (properties : List (String × ElementType))
    (entries : Entries Value), ConformAll properties entries →
      Settled (propertySlots properties) (propertyWords properties entries)
  | [], _, _ => fun _ hmem => absurd hmem List.not_mem_nil
  | (name, ty) :: rest, entries, h => by
      obtain ⟨⟨value, hlookup, hvalue⟩, hrest⟩ := h
      rw [propertySlots, propertyWords, hlookup]
      refine (settled_append_iff ?_).mpr
        ⟨settled_words ty value hvalue, settled_propertyWords rest entries hrest⟩
      rw [length_slots]
      exact (length_words ty value hvalue).symm
end

mutual
/-- The words of a conforming value hold what the value is stored as. -/
theorem held_words : ∀ (ty : ElementType) (value : Value), ty.check = .ok () →
    ty.Conforms value → ty.held (Lanes.ofWords (ty.words value)) = ty.stored value
  | scalar p, .number x, _, _ => by
      rw [words, held, Lanes.numbers_ofWords, stored, ← Primitive.ofWord_toWord]
      rfl
  | vector p _, .vector xs, _, _ => by
      rw [words, held, Lanes.numbers_ofWords, map_ofWord_toWord, stored]
  | matrix p rows cols, .matrix lines, hvalid, h => by
      obtain ⟨-, hcols⟩ := check_matrix_iff.mp hvalid
      have hrows : ∀ row ∈ lines.map (·.map p.stored), row.length = cols := by
        intro row hmem
        obtain ⟨line, hline, rfl⟩ := List.mem_map.mp hmem
        rw [List.length_map, h.2 line hline]
      rw [words, held, Lanes.numbers_ofWords, map_ofWord_toWord, List.map_flatten,
        Grid.chunks_flatten hcols hrows, stored]
  | struct properties, .record entries, hvalid, h => by
      obtain ⟨hall, -, -⟩ := check_struct_iff.mp hvalid
      have hentries := heldEntries_words properties [] [] entries hall h
      rw [List.nil_append, List.append_nil] at hentries
      rw [words, held, stored]
      exact congrArg Value.ofEntries hentries

/-- The same for the properties, between the words of those before and of those behind. -/
theorem heldEntries_words : ∀ (properties : List (String × ElementType))
    (front back : List Word) (entries : Entries Value), checkProperties properties = .ok () →
      ConformAll properties entries →
        heldEntries properties front.length
            (Lanes.ofWords (front ++ propertyWords properties entries ++ back))
          = storedEntries properties entries
  | [], _, _, _, _, _ => rfl
  | (name, ty) :: rest, front, back, entries, hvalid, h => by
      obtain ⟨hty, hrest⟩ := checkProperties_cons_iff.mp hvalid
      obtain ⟨⟨value, hlookup, hvalue⟩, hothers⟩ := h
      have hlen := length_words ty value hvalue
      have hsplit : front ++ propertyWords ((name, ty) :: rest) entries ++ back
          = front ++ ty.words value ++ (propertyWords rest entries ++ back) := by
        rw [propertyWords, hlookup]
        simp
      have htail := heldEntries_words rest (front ++ ty.words value) back entries hrest hothers
      rw [List.length_append, hlen, List.append_assoc] at htail
      rw [heldEntries, hsplit, htail, cut_ofWords, window_append rfl hlen,
        held_words ty value hty hvalue, storedEntries, hlookup]
      rfl
end

/-! ### The two round trips -/

/-- What a value is stored as has the words of the value. -/
theorem words_stored {ty : ElementType} {value : Value} (hvalid : ty.check = .ok ())
    (h : ty.Conforms value) : ty.words (ty.stored value) = ty.words value := by
  rw [← held_words ty value hvalid h]
  exact words_held ty (ty.words value) hvalid (length_words ty value h) (settled_words ty value h)

theorem conforms_stored {ty : ElementType} {value : Value} (hvalid : ty.check = .ok ())
    (h : ty.Conforms value) : ty.Conforms (ty.stored value) := by
  have hlen := length_words ty value h
  rw [← held_words ty value hvalid h]
  exact conforms_held ty _ hvalid hlen (by rw [Lanes.length_floats_ofWords, hlen])

/-- Storing what is already stored changes nothing. -/
theorem stored_stored {ty : ElementType} {value : Value} (hvalid : ty.check = .ok ())
    (h : ty.Conforms value) : ty.stored (ty.stored value) = ty.stored value := by
  rw [← held_words ty _ hvalid (conforms_stored hvalid h), words_stored hvalid h,
    held_words ty value hvalid h]

/-- **A conforming value comes back as what it is stored as**, from both lanes and from the
packed words alone.  Storing that again changes neither the value nor a single word, so a second
round trip is exact.  The type only has to have a number of slots at all: its slots can be
listed in one object. -/
theorem decode_encode {ty : ElementType} {value : Value} {count : Nat}
    (hvalid : ty.check = .ok ()) (hcount : (ty.slotTotal : Outcome FieldError Nat) = .ok count)
    (h : ty.Conforms value) :
    ∃ lanes : Lanes,
      ty.encode value = .ok lanes ∧ ty.decode lanes = .ok (ty.stored value) ∧
      ty.encodeWords value = .ok lanes.ints ∧
      ty.decodeWords lanes.ints = .ok (ty.stored value) ∧
      ty.stored (ty.stored value) = ty.stored value ∧
      ty.encode (ty.stored value) = .ok lanes := by
  have hfits := (slotTotal_eq_ok_iff.mp hcount).2
  have hlen := length_words ty value h
  have hdecoded : ty.decodeWords (ty.words value) = .ok (ty.stored value) := by
    rw [decodeWords_eq hfits hlen, held_words ty value hvalid h]
  refine ⟨Lanes.ofWords (ty.words value), encode_eq ty value hfits h, hdecoded,
    encodeWords_eq hfits h, hdecoded, stored_stored hvalid h, ?_⟩
  rw [encode_eq ty _ hfits (conforms_stored hvalid h), words_stored hvalid h]

/-- An entry that is not declared is dropped, an integer slot wraps and truncates, and a number
that has no 32-bit form is rounded. -/
theorem decode_encode_nested :
    let ty := struct [("b", vector .i32 2), ("a", struct [("x", scalar .f32)])]
    let value := Value.record [("a", .record [("x", .number ⟨0x3fb999999999999a⟩)]),
      ("b", .vector [⟨0x41efffffffe00000⟩, ⟨0xbfe0000000000000⟩]), ("c", .number ⟨0⟩)]
    ty.check = .ok () ∧ (ty.slotTotal : Outcome FieldError Nat) = .ok 3 ∧ ty.Conforms value ∧
      ∃ lanes : Lanes,
        lanes.ints = [0xffffffff, 0, 0x3dcccccd] ∧
        ty.encode value = .ok lanes ∧ ty.decode lanes = .ok (ty.stored value) ∧
        ty.encodeWords value = .ok lanes.ints ∧
        ty.decodeWords lanes.ints = .ok (ty.stored value) ∧
        ty.stored (ty.stored value) = ty.stored value ∧
        ty.encode (ty.stored value) = .ok lanes := by
  intro ty value
  have hvalid : ty.check = .ok () := by decide
  have hcount : (ty.slotTotal : Outcome FieldError Nat) = .ok 3 := by decide
  have hconforms : ty.Conforms value :=
    ⟨⟨_, rfl, rfl⟩, ⟨_, rfl, ⟨_, rfl, trivial⟩, trivial⟩, trivial⟩
  have hwords : ty.words value = [0xffffffff, 0, 0x3dcccccd] := by decide +kernel
  obtain ⟨lanes, hencode, hrest⟩ := decode_encode hvalid hcount hconforms
  have hfits : ty.slotCount ≤ Size.objectLimit := by decide
  have hlanes : lanes = Lanes.ofWords (ty.words value) :=
    Except.ok.inj (hencode.symm.trans (encode_eq ty value hfits hconforms))
  exact ⟨hvalid, hcount, hconforms, lanes, hlanes ▸ hwords, hencode, hrest⟩

/-- **A run of words comes back as the same words**, provided that no floating-point slot holds
a NaN.  Decoding is refused for the length alone, and what it yields conforms; so two different
runs without NaNs never decode to the same value. -/
theorem encodeWords_decodeWords {ty : ElementType} (hvalid : ty.check = .ok ())
    (hfits : ty.slotCount ≤ Size.objectLimit) :
    (∀ words : List Word, words.length ≠ ty.slotCount →
      ty.decodeWords words = .error (.error
        (.mismatch (.slotCount ty ty.slotCount words.length words.length)))) ∧
    (∀ words : List Word, words.length = ty.slotCount →
      ∃ value, ty.decodeWords words = .ok value ∧ ty.Conforms value ∧
        (ty.NaNFree words → ty.encodeWords value = .ok words)) ∧
    (∀ words words' : List Word, words.length = ty.slotCount → words'.length = ty.slotCount →
      ty.NaNFree words → ty.NaNFree words' →
        ty.decodeWords words = ty.decodeWords words' → words = words') := by
  have hback : ∀ words : List Word, words.length = ty.slotCount → ty.NaNFree words →
      ty.words (ty.held (Lanes.ofWords words)) = words :=
    fun words hlen hfree => words_held ty words hvalid hlen hfree.settled
  refine ⟨?_, ?_, ?_⟩
  · intro words hne
    have hlanes : ¬ ((Lanes.ofWords words).ints.length = ty.slotCount ∧
        (Lanes.ofWords words).floats.length = ty.slotCount) := fun hc => hne hc.1
    rw [decodeWords, decode_of_checkLanes (checkLanes_of_ne hfits hlanes),
      Lanes.length_ints_ofWords, Lanes.length_floats_ofWords]
  · intro words hlen
    have hconforms := conforms_held ty (Lanes.ofWords words) hvalid hlen
      (by rw [Lanes.length_floats_ofWords, hlen])
    refine ⟨_, decodeWords_eq hfits hlen, hconforms, fun hfree => ?_⟩
    rw [encodeWords_eq hfits hconforms, hback words hlen hfree]
  · intro words words' hlen hlen' hfree hfree' heq
    rw [decodeWords_eq hfits hlen, decodeWords_eq hfits hlen', Except.ok.injEq] at heq
    rw [← hback words hlen hfree, heq, hback words' hlen' hfree']

/-- The smallest integer, a negative zero, a subnormal and an infinity all come back. -/
theorem encodeWords_decodeWords_extremes :
    let ty := struct [("n", scalar .i32), ("x", vector .f32 3)]
    let extremes : List Word := [0x80000000, 0x80000000, 0x00000001, 0x7f800000]
    ty.check = .ok () ∧ ty.slotCount ≤ Size.objectLimit ∧ extremes.length = ty.slotCount ∧
      ty.NaNFree extremes ∧
      ∃ value, ty.decodeWords extremes = .ok value ∧ ty.Conforms value ∧
        ty.encodeWords value = .ok extremes := by
  intro ty extremes
  have hvalid : ty.check = .ok () := by decide
  have hfits : ty.slotCount ≤ Size.objectLimit := by decide
  have hlen : extremes.length = ty.slotCount := by decide
  have hfree : ty.NaNFree extremes := by unfold NaNFree; decide
  obtain ⟨value, hdecode, hconforms, hback⟩ :=
    (encodeWords_decodeWords hvalid hfits).2.1 extremes hlen
  exact ⟨hvalid, hfits, hlen, hfree, value, hdecode, hconforms, hback hfree⟩

/-- A type whose slots cannot be listed has no layout to compare a run with, so a run of the
wrong length is not reported as one. -/
theorem decodeWords_of_unlistable :
    (vector .f32 0x8000000000000000).check = .ok () ∧
      ([1] : List Word).length ≠ (vector .f32 0x8000000000000000).slotCount ∧
      ∀ cause, (vector .f32 0x8000000000000000).decodeWords [1]
        ≠ .error (.error (.mismatch cause)) := by
  refine ⟨by decide, by decide, ?_⟩
  intro cause h
  rw [decodeWords, decode_of_checkLanes (checkLanes_of_lt _ (by decide))] at h
  cases h

end FieldStore.ElementType
