/-
What the reading of an element depends on.

A slot is read from the lane of its own kind, so the numbers of that lane at that slot are all
that matters; the other lane may hold anything there.  Two runs that agree in this sense decode
to the same value, by induction on the type: a struct hands on slices, and slices of runs that
agree do so too.

Each part of the value that is read is the reading of its own slice.  The slice lies within the
run and has as many slots as its type asks for, which is why nothing can go wrong below the one
check of the lengths at the top.
-/
import FieldStore.Proofs.Element.Path
import FieldStore.Proofs.Element.RoundTrip

namespace FieldStore

/-- Two runs agree where slots of the given kinds are read: at an integer slot in the lane of
integers, at a floating-point slot in the lane of floating-point numbers. -/
def Lanes.AgreeOn (slots : List Primitive) (lanes lanes' : Lanes) : Prop :=
  ∀ i : Nat, (slots[i]? = some .i32 → lanes.ints[i]? = lanes'.ints[i]?) ∧
    (slots[i]? = some .f32 → lanes.floats[i]? = lanes'.floats[i]?)

namespace Lanes

/-- Slots of the given kinds, from `start` on, hold the same numbers in both runs. -/
def AlikeFrom (start : Nat) (slots : List Primitive) (lanes lanes' : Lanes) : Prop :=
  ∀ (i : Nat) (p : Primitive), slots[i]? = some p →
    (lanes.numbers p)[start + i]? = (lanes'.numbers p)[start + i]?

variable {lanes lanes' : Lanes} {slots : List Primitive} {start count : Nat}

theorem AgreeOn.alike (h : AgreeOn slots lanes lanes') : AlikeFrom 0 slots lanes lanes' := by
  intro i p hslot
  rw [Nat.zero_add]
  cases p with
  | i32 => simp only [numbers, List.getElem?_map, (h i).1 hslot]
  | f32 => simp only [numbers, List.getElem?_map, (h i).2 hslot]

theorem numbers_cut (p : Primitive) (start count : Nat) (lanes : Lanes) :
    (lanes.cut start count).numbers p = window start count (lanes.numbers p) := by
  cases p <;> exact map_window ..

theorem AlikeFrom.append {rest : List Primitive} (h : AlikeFrom start (slots ++ rest) lanes lanes') :
    AlikeFrom start slots lanes lanes' ∧ AlikeFrom (start + slots.length) rest lanes lanes' := by
  constructor
  · intro i p hslot
    have hi := (List.getElem?_eq_some_iff.mp hslot).1
    exact h i p ((List.getElem?_append_left hi).trans hslot)
  · intro i p hslot
    rw [Nat.add_assoc]
    refine h (slots.length + i) p ?_
    rw [List.getElem?_append_right (Nat.le_add_right ..), Nat.add_sub_cancel_left]
    exact hslot

/-- Runs that agree from `start` on still do so when they are cut there. -/
theorem AlikeFrom.cut (h : AlikeFrom start slots lanes lanes') :
    AlikeFrom 0 slots (lanes.cut start slots.length) (lanes'.cut start slots.length) := by
  intro i p hslot
  have hi := (List.getElem?_eq_some_iff.mp hslot).1
  rw [numbers_cut, numbers_cut, getElem?_window, getElem?_window, Nat.zero_add, if_pos hi,
    if_pos hi]
  exact h i p hslot

/-- Runs that agree on slots of one kind have the same numbers of that kind. -/
theorem AlikeFrom.numbers_eq {p : Primitive}
    (h : AlikeFrom 0 (List.replicate count p) lanes lanes')
    (hlen : (lanes.numbers p).length = count) (hlen' : (lanes'.numbers p).length = count) :
    lanes.numbers p = lanes'.numbers p := by
  apply List.ext_getElem?
  intro i
  by_cases hi : i < count
  · have hsame := h i p (by rw [List.getElem?_replicate, if_pos hi])
    rwa [Nat.zero_add] at hsame
  · rw [List.getElem?_eq_none (by omega), List.getElem?_eq_none (by omega)]

theorem cut_cut {outer width : Nat} (h : start + count ≤ width) :
    (lanes.cut outer width).cut start count = lanes.cut (outer + start) count := by
  simp only [Lanes.cut, window_window h]

theorem cut_whole (hints : lanes.ints.length = count) (hfloats : lanes.floats.length = count) :
    lanes.cut 0 count = lanes := by
  simp only [Lanes.cut, window_whole hints, window_whole hfloats]

end Lanes

namespace ElementType

/-! ### Runs that agree -/

mutual
/-- What a run holds depends on each slot's own lane alone. -/
theorem held_congr : ∀ (ty : ElementType) (lanes lanes' : Lanes),
    (∀ p, (lanes.numbers p).length = ty.slotCount) →
      (∀ p, (lanes'.numbers p).length = ty.slotCount) →
      lanes.AlikeFrom 0 ty.slots lanes' → ty.held lanes = ty.held lanes'
  | scalar p, lanes, lanes', hlen, hlen', h => by
      have hsame : lanes.AlikeFrom 0 (List.replicate 1 p) lanes' := h
      rw [held, held, hsame.numbers_eq (hlen p) (hlen' p)]
  | vector p rows, lanes, lanes', hlen, hlen', h => by
      rw [held, held, h.numbers_eq (hlen p) (hlen' p)]
  | matrix p rows cols, lanes, lanes', hlen, hlen', h => by
      rw [held, held, h.numbers_eq (hlen p) (hlen' p)]
  | struct properties, lanes, lanes', hlen, hlen', h => by
      rw [held, held, heldEntries_congr properties 0 lanes lanes'
        (fun p => by rw [hlen, slotCount, Nat.zero_add])
        (fun p => by rw [hlen', slotCount, Nat.zero_add]) h]

theorem heldEntries_congr : ∀ (properties : List (String × ElementType)) (start : Nat)
    (lanes lanes' : Lanes),
    (∀ p, start + propertySlotCount properties ≤ (lanes.numbers p).length) →
      (∀ p, start + propertySlotCount properties ≤ (lanes'.numbers p).length) →
      lanes.AlikeFrom start (propertySlots properties) lanes' →
        heldEntries properties start lanes = heldEntries properties start lanes'
  | [], _, _, _, _, _, _ => rfl
  | (name, ty) :: rest, start, lanes, lanes', hroom, hroom', h => by
      simp only [propertySlotCount] at hroom hroom'
      obtain ⟨hown, hothers⟩ := h.append
      have hcut := hown.cut
      rw [length_slots] at hcut hothers
      have hvalue := held_congr ty (lanes.cut start ty.slotCount) (lanes'.cut start ty.slotCount)
        (fun p => by
          have := hroom p
          rw [Lanes.numbers_cut, length_window (by omega)])
        (fun p => by
          have := hroom' p
          rw [Lanes.numbers_cut, length_window (by omega)]) hcut
      have hrest := heldEntries_congr rest (start + ty.slotCount) lanes lanes'
        (fun p => by have := hroom p; omega) (fun p => by have := hroom' p; omega) hothers
      rw [heldEntries, heldEntries, hvalue, hrest]
end

/-! ### Parts of the value that is read -/

theorem heldEntries_append (before after : List (String × ElementType)) (lanes : Lanes) :
    ∀ start, heldEntries (before ++ after) start lanes =
      heldEntries before start lanes
        ++ heldEntries after (start + propertySlotCount before) lanes := by
  induction before with
  | nil => intro start; rfl
  | cons property before ih =>
      intro start
      simp only [List.cons_append, heldEntries, propertySlotCount, ih, Nat.add_assoc]

/-- What stands at a path of the value that is read is what the slots of that path hold. -/
theorem Leads.at?_held {ty target : ElementType} {path : List String} {start : Nat}
    (h : Leads ty path start target) :
    ∀ {lanes : Lanes}, ty.check = .ok () → lanes.ints.length = ty.slotCount →
      lanes.floats.length = ty.slotCount →
        (ty.held lanes).at? path = some (target.held (lanes.cut start target.slotCount)) := by
  induction h with
  | here ty =>
      intro lanes _ hints hfloats
      rw [Lanes.cut_whole hints hfloats]
      rfl
  | @into before after name next target path start hbefore hnext ih =>
      intro lanes hvalid hints hfloats
      obtain ⟨-, -, hnames⟩ := check_struct_iff.mp hvalid
      have hcheck : next.check = .ok () :=
        check_property hvalid (List.mem_append_right _ List.mem_cons_self)
      have hroom : propertySlotCount before + next.slotCount
          ≤ (struct (before ++ (name, next) :: after)).slotCount := by
        rw [slotCount, propertySlotCount_append, propertySlotCount]
        omega
      -- The entry that the property contributes is the one that the record answers the name with.
      have hmem : (name, next.held (lanes.cut (propertySlotCount before) next.slotCount))
          ∈ heldEntries (before ++ (name, next) :: after) 0 lanes := by
        rw [heldEntries_append, Nat.zero_add, heldEntries]
        exact List.mem_append_right _ List.mem_cons_self
      have hget := lookup_heldEntries hnames lanes _ hmem
      have hints' : (lanes.cut (propertySlotCount before) next.slotCount).ints.length
          = next.slotCount := length_window (by omega)
      have hfloats' : (lanes.cut (propertySlotCount before) next.slotCount).floats.length
          = next.slotCount := length_window (by omega)
      have hrest := ih hcheck hints' hfloats'
      rw [← Lanes.cut_cut hnext.le_slotCount, ← hrest, held, Value.at?]
      exact congrArg (Option.bind · _) hget

/-- The record that a struct is read as has the declared names for its keys, and no others. -/
theorem keys_held {properties : List (String × ElementType)}
    (hvalid : (struct properties).check = .ok ()) (lanes : Lanes) :
    ∃ entries, (struct properties).held lanes = .record entries ∧
      (entries.map Prod.fst).Perm (properties.map Prod.fst) := by
  obtain ⟨-, -, hnames⟩ := check_struct_iff.mp hvalid
  rw [← map_fst_heldEntries properties 0 lanes] at hnames ⊢
  exact ⟨_, rfl, Entries.map_fst_ofList hnames⟩

/-! ### Success and refusal -/

theorem decode_eq_ok_iff {ty : ElementType} {lanes : Lanes} {value : Value}
    (hlisted : ty.slotCount ≤ Size.objectLimit) :
    ty.decode lanes = .ok value ↔
      (lanes.ints.length = ty.slotCount ∧ lanes.floats.length = ty.slotCount) ∧
        value = ty.held lanes := by
  by_cases hlen : lanes.ints.length = ty.slotCount ∧ lanes.floats.length = ty.slotCount
  · rw [decode_eq ty lanes hlisted hlen.1 hlen.2, Except.ok.injEq, and_iff_right hlen]
    exact eq_comm
  · rw [decode_of_checkLanes (checkLanes_of_ne hlisted hlen)]
    simp [hlen]

/-- **Reading takes each slot from the lane of its own kind, and cannot fail on a run of the
right length.**  A run is refused for the lengths of its lanes alone.  The value that is read
conforms to the type, with the declared names and no others at every level, and each of its
parts is what the slice of its own slots decodes to.  Another run that agrees with this one on
the integers at the integer slots and on the floating-point numbers at the others decodes to the
same value. -/
theorem decode_reads_own_lane {ty : ElementType} (hvalid : ty.check = .ok ())
    (hlisted : ty.slotCount ≤ Size.objectLimit) :
    (∀ lanes, (∃ value, ty.decode lanes = .ok value) ↔
      lanes.ints.length = ty.slotCount ∧ lanes.floats.length = ty.slotCount) ∧
    (∀ lanes failure, ty.decode lanes = .error failure → failure = .error
      (.mismatch (.slotCount ty ty.slotCount lanes.ints.length lanes.floats.length))) ∧
    (∀ lanes value, ty.decode lanes = .ok value →
      ty.Conforms value ∧
      (∀ path properties, ty.at? path = some (struct properties) →
        ∃ entries, value.at? path = some (.record entries) ∧
          (entries.map Prod.fst).Perm (properties.map Prod.fst)) ∧
      ∀ path target, ty.at? path = some target →
        ∃ start slots part, ty.start? path = some start ∧
          (lanes.slice start target.slotCount : Outcome FieldError Lanes) = .ok slots ∧
          target.decode slots = .ok part ∧ value.at? path = some part) ∧
    ∀ lanes lanes' value, ty.decode lanes = .ok value →
      lanes'.ints.length = ty.slotCount → lanes'.floats.length = ty.slotCount →
        lanes.AgreeOn ty.slots lanes' → ty.decode lanes' = .ok value := by
  refine ⟨?_, ?_, ?_, ?_⟩
  · intro lanes
    simp only [decode_eq_ok_iff hlisted, exists_and_left, exists_eq, and_true]
  · intro lanes failure h
    by_cases hlen : lanes.ints.length = ty.slotCount ∧ lanes.floats.length = ty.slotCount
    · cases (decode_eq ty lanes hlisted hlen.1 hlen.2).symm.trans h
    · rw [decode_of_checkLanes (checkLanes_of_ne hlisted hlen)] at h
      cases h
      rfl
  · intro lanes value h
    obtain ⟨⟨hints, hfloats⟩, rfl⟩ := (decode_eq_ok_iff hlisted).mp h
    refine ⟨conforms_held ty lanes hvalid hints hfloats, ?_, ?_⟩
    · intro path properties hat
      obtain ⟨start, -, hleads⟩ := leads_of_at? hat
      obtain ⟨entries, hentries, hkeys⟩ := keys_held (hleads.check hvalid)
        (lanes.cut start (struct properties).slotCount)
      exact ⟨entries, (hleads.at?_held hvalid hints hfloats).trans (congrArg some hentries), hkeys⟩
    · intro path target hat
      obtain ⟨start, hstart, hleads⟩ := leads_of_at? hat
      have hle := hleads.le_slotCount
      have hslice : (lanes.slice start target.slotCount : Outcome FieldError Lanes)
          = .ok (lanes.cut start target.slotCount) := slice_eq_cut (by omega) (by omega)
      have hdecode := decode_eq target (lanes.cut start target.slotCount) (by omega)
        (length_window (by omega)) (length_window (by omega))
      exact ⟨start, _, _, hstart, hslice, hdecode, hleads.at?_held hvalid hints hfloats⟩
  · intro lanes lanes' value h hints' hfloats' hagree
    obtain ⟨⟨hints, hfloats⟩, rfl⟩ := (decode_eq_ok_iff hlisted).mp h
    refine (decode_eq_ok_iff hlisted).mpr ⟨⟨hints', hfloats'⟩, ?_⟩
    exact held_congr ty lanes lanes' (length_numbers hints hfloats)
      (length_numbers hints' hfloats') hagree.alike

/-- The integers at floating-point slots and the floating-point number at the integer slot do not
matter, and a run whose lanes differ in length is refused. -/
theorem decode_reads_own_lane_mixed :
    let ty := struct [("n", scalar .i32), ("p", struct [("x", vector .f32 2)])]
    let lanes : Lanes := ⟨[7, 0, 0], [⟨0⟩, ⟨0x3f800000⟩, ⟨0x40000000⟩]⟩
    let lanes' : Lanes := ⟨[7, 1, 2], [⟨0x7fc00000⟩, ⟨0x3f800000⟩, ⟨0x40000000⟩]⟩
    ty.check = .ok () ∧ ty.slotCount ≤ Size.objectLimit ∧ lanes.AgreeOn ty.slots lanes' ∧
      (∃ value, ty.decode lanes = .ok value ∧ ty.decode lanes' = .ok value ∧ ty.Conforms value ∧
        ∃ entries, value.at? ["p"] = some (.record entries) ∧
          (entries.map Prod.fst).Perm ["x"]) ∧
      ¬ ∃ value, ty.decode ⟨[7, 0, 0], []⟩ = .ok value := by
  intro ty lanes lanes'
  have hvalid : ty.check = .ok () := by decide
  have hlisted : ty.slotCount ≤ Size.objectLimit := by decide
  have hagree : lanes.AgreeOn ty.slots lanes' := by
    intro i
    match i with
    | 0 => decide
    | 1 => decide
    | 2 => decide
    | i + 3 => exact ⟨fun _ => rfl, fun _ => rfl⟩
  obtain ⟨htotal, -, hread, htwo⟩ := decode_reads_own_lane hvalid hlisted
  obtain ⟨value, hvalue⟩ := (htotal lanes).mpr ⟨rfl, rfl⟩
  obtain ⟨hconforms, hkeys, -⟩ := hread lanes value hvalue
  have hsame := htwo lanes lanes' value hvalue rfl rfl hagree
  refine ⟨hvalid, hlisted, hagree, ⟨value, hvalue, hsame, hconforms, hkeys ["p"] _ rfl⟩, ?_⟩
  intro h
  cases ((htotal _).mp h).2

/-- A run of the wrong length is not reported as such where the slots of the type fit no object:
there is no layout to compare it with. -/
theorem decode_of_unlistable :
    (vector .f32 0x8000000000000000).check = .ok () ∧
      (⟨[1], [⟨0⟩]⟩ : Lanes).ints.length ≠ (vector .f32 0x8000000000000000).slotCount ∧
      ∀ cause, (vector .f32 0x8000000000000000).decode ⟨[1], [⟨0⟩]⟩
        ≠ .error (.error (.mismatch cause)) := by
  refine ⟨by decide, by decide, ?_⟩
  intro cause h
  rw [decode_of_checkLanes (checkLanes_of_lt _ (by decide))] at h
  cases h

end ElementType

end FieldStore
