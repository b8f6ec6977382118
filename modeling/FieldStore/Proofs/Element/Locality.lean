/-
Where the parts of a value are encoded.

The words of a struct are those of its properties one after the other, so the words of a part
that is reached by a path of names stand at the first slot of that path, and they are the words
that the part has by itself.  Putting another part in its place overwrites exactly these words.

Both facts are about the words of a value and need no bounds; that there is an encoding at all
needs that the slots of the type can be listed.  They can for every type that holds a value
that exists: each slot takes up one number of the value, and numbers lie in memory side by side.
-/
import FieldStore.Proofs.Element.Encode
import FieldStore.Proofs.Element.Entries
import FieldStore.Proofs.Element.Tiling

namespace FieldStore

/-! ### Values in memory -/

namespace Value

mutual
/-- How many numbers a value holds at any depth. -/
def numberCount : Value → Nat
  | number _ => 1
  | vector xs => xs.length
  | matrix lines => lines.flatten.length
  | record entries => entryNumberCount entries

/-- How many numbers the entries of a record hold together. -/
def entryNumberCount : List (String × Value) → Nat
  | [] => 0
  | (_, value) :: rest => numberCount value + entryNumberCount rest
end

/-- The width of a host number in bytes. -/
def numberBytes : Nat := 8

/-- Whether the numbers of a value find room in the address space.  Those of every value do, since
each is held at an address of its own. -/
def FitsMemory (value : Value) : Prop := numberBytes * value.numberCount < Size.bound

/-- The value with the part at the end of a path replaced, if the path leads anywhere. -/
def replace? (value : Value) : List String → Value → Option Value
  | [], other => some other
  | name :: path, other =>
      match value with
      | record entries =>
          (entries.lookup name).bind fun part =>
            (part.replace? path other).map fun part' => record (Entries.insert name part' entries)
      | _ => none

/-- Entries without the one under a key, but with as many numbers as are left without it. -/
theorem exists_rest {name : String} {part : Value} :
    ∀ {entries : Entries Value}, entries.lookup name = some part →
      ∃ rest : Entries Value,
        entryNumberCount entries = part.numberCount + entryNumberCount rest ∧
        ∀ other, other ≠ name → rest.lookup other = entries.lookup other := by
  intro entries
  induction entries with
  | nil => intro h; cases h
  | cons entry entries ih =>
      obtain ⟨key, value⟩ := entry
      intro h
      by_cases hkey : name = key
      · subst hkey
        rw [List.lookup_cons_self] at h
        cases h
        refine ⟨entries, rfl, fun other hne => ?_⟩
        rw [List.lookup_cons, beq_false_of_ne hne]
      · rw [List.lookup_cons, beq_false_of_ne hkey] at h
        obtain ⟨rest, hcount, hsame⟩ := ih h
        refine ⟨(key, value) :: rest, ?_, fun other hne => ?_⟩
        · rw [entryNumberCount, entryNumberCount, hcount]
          omega
        · rw [List.lookup_cons, List.lookup_cons, hsame other hne]

end Value

namespace ElementType

/-! ### Conforming records -/

theorem conformAll_iff {properties : List (String × ElementType)} {entries : Entries Value} :
    ConformAll properties entries ↔ ∀ property ∈ properties,
      ∃ value, entries.lookup property.1 = some value ∧ property.2.Conforms value := by
  induction properties with
  | nil => simp [ConformAll]
  | cons property rest ih => rw [ConformAll, List.forall_mem_cons, ih]

theorem exists_entries {properties : List (String × ElementType)} {value : Value}
    (h : (struct properties).Conforms value) :
    ∃ entries, value = .record entries ∧ ConformAll properties entries := by
  cases value with
  | record entries => exact ⟨entries, rfl, h⟩
  | number | vector | matrix => cases h

theorem propertyWords_append (before after : List (String × ElementType))
    (entries : Entries Value) :
    propertyWords (before ++ after) entries
      = propertyWords before entries ++ propertyWords after entries := by
  induction before with
  | nil => rfl
  | cons property before ih =>
      simp only [List.cons_append, propertyWords, ih, List.append_assoc]

/-- The words of the properties depend on the entries under their names alone. -/
theorem propertyWords_congr {properties : List (String × ElementType)}
    {entries entries' : Entries Value}
    (h : ∀ property ∈ properties, entries.lookup property.1 = entries'.lookup property.1) :
    propertyWords properties entries = propertyWords properties entries' := by
  induction properties with
  | nil => rfl
  | cons property rest ih =>
      rw [List.forall_mem_cons] at h
      rw [propertyWords, propertyWords, h.1, ih h.2]

mutual
/-- A type has no more slots than a conforming value has numbers. -/
theorem slotCount_le_numberCount : ∀ (ty : ElementType) (value : Value), ty.check = .ok () →
    ty.Conforms value → ty.slotCount ≤ value.numberCount
  | scalar _, .number _, _, _ => Nat.le_refl _
  | vector _ _, .vector _, _, h => Nat.le_of_eq h.symm
  | matrix _ rows cols, .matrix lines, _, h => by
      rw [slotCount, Value.numberCount, Grid.length_flatten h.2, h.1]
  | struct properties, .record entries, hvalid, h => by
      obtain ⟨hall, -, hnames⟩ := check_struct_iff.mp hvalid
      exact propertySlotCount_le_entryNumberCount properties entries hall hnames h

theorem propertySlotCount_le_entryNumberCount : ∀ (properties : List (String × ElementType))
    (entries : Entries Value), checkProperties properties = .ok () →
      (properties.map Prod.fst).Nodup → ConformAll properties entries →
        propertySlotCount properties ≤ Value.entryNumberCount entries
  | [], _, _, _, _ => Nat.zero_le _
  | (name, ty) :: rest, entries, hvalid, hnames, h => by
      obtain ⟨hty, hrest⟩ := checkProperties_cons_iff.mp hvalid
      obtain ⟨hnot, hothers⟩ := List.nodup_cons.mp hnames
      obtain ⟨⟨part, hlookup, hpart⟩, hall⟩ := h
      obtain ⟨left, hcount, hsame⟩ := Value.exists_rest hlookup
      have hleft : ConformAll rest left := conformAll_iff.mpr fun property hmem => by
        have hname : property.1 ∈ rest.map Prod.fst := List.mem_map_of_mem hmem
        have hne : property.1 ≠ name := fun heq => hnot (heq ▸ hname)
        rw [hsame property.1 hne]
        exact conformAll_iff.mp hall property hmem
      have hown := slotCount_le_numberCount ty part hty hpart
      have hothers := propertySlotCount_le_entryNumberCount rest left hrest hothers hleft
      rw [propertySlotCount]
      omega
end

/-- The slots of a type that holds a value that exists can be listed. -/
theorem listed_of_fitsMemory {ty : ElementType} {value : Value} (hvalid : ty.check = .ok ())
    (hconforms : ty.Conforms value) (hmemory : value.FitsMemory) :
    ty.slotCount ≤ Size.objectLimit := by
  have hle := slotCount_le_numberCount ty value hvalid hconforms
  unfold Value.FitsMemory Value.numberBytes Size.bound at hmemory
  unfold Size.objectLimit
  omega

/-! ### Parts -/

/-- The words of a struct, with one of its properties in view. -/
theorem words_struct {before after : List (String × ElementType)} {name : String}
    {next : ElementType} {entries : Entries Value} {part : Value}
    (hlookup : entries.lookup name = some part) :
    (struct (before ++ (name, next) :: after)).words (.record entries)
      = propertyWords before entries ++ next.words part ++ propertyWords after entries := by
  rw [words, propertyWords_append, propertyWords, hlookup, List.append_assoc]
  rfl

theorem conformAll_split {before after : List (String × ElementType)} {name : String}
    {next : ElementType} {entries : Entries Value} :
    ConformAll (before ++ (name, next) :: after) entries ↔
      ConformAll before entries ∧ (∃ part, entries.lookup name = some part ∧ next.Conforms part) ∧
        ConformAll after entries := by
  simp only [conformAll_iff, List.forall_mem_append, List.forall_mem_cons]

/-- Changing the entry of one property leaves the others as they are. -/
theorem conformAll_insert {properties : List (String × ElementType)} {entries : Entries Value}
    {name : String} {part : Value} (hne : ∀ property ∈ properties, property.1 ≠ name)
    (h : ConformAll properties entries) : ConformAll properties (Entries.insert name part entries) := by
  rw [conformAll_iff] at h ⊢
  intro property hmem
  rw [Entries.lookup_insert_of_ne (hne property hmem)]
  exact h property hmem

namespace Leads

variable {ty target : ElementType} {path : List String} {start : Nat}

/-- A conforming value has a part at every path of its type, whose words stand at the slots of
that path. -/
theorem exists_part (h : Leads ty path start target) :
    ∀ {value : Value}, ty.Conforms value →
      ∃ part, value.at? path = some part ∧ target.Conforms part ∧
        window start target.slotCount (ty.words value) = target.words part := by
  induction h with
  | here ty =>
      intro value hvalue
      exact ⟨value, rfl, hvalue, window_whole (length_words ty value hvalue)⟩
  | @into before after name next target path start hbefore hnext ih =>
      intro value hvalue
      obtain ⟨entries, rfl, hall⟩ := exists_entries hvalue
      obtain ⟨hfront, ⟨inner, hlookup, hinner⟩, -⟩ := conformAll_split.mp hall
      obtain ⟨part, hpart, hconforms, hwords⟩ := ih hinner
      have houter : window (propertySlotCount before) next.slotCount
          ((struct (before ++ (name, next) :: after)).words (.record entries))
            = next.words inner := by
        rw [words_struct hlookup]
        exact window_append (length_propertyWords before entries hfront)
          (length_words next inner hinner)
      refine ⟨part, ?_, hconforms, ?_⟩
      · rw [Value.at?, Value.get?, hlookup]
        exact hpart
      · rw [← window_window hnext.le_slotCount, houter, hwords]

/-- Replacing the part at a path by a conforming one overwrites the words at the slots of that
path by its own. -/
theorem exists_replaced (h : Leads ty path start target) :
    ∀ {value other : Value}, ty.check = .ok () → ty.Conforms value → target.Conforms other →
      ∃ value', value.replace? path other = some value' ∧ ty.Conforms value' ∧
        value'.at? path = some other ∧
        ty.words value' = overwrite start (target.words other) (ty.words value) := by
  induction h with
  | here ty =>
      intro value other _ hvalue hother
      refine ⟨other, rfl, hother, rfl, ?_⟩
      rw [overwrite_whole]
      rw [length_words ty other hother, length_words ty value hvalue]
  | @into before after name next target path start hbefore hnext ih =>
      intro value other hvalid hvalue hother
      obtain ⟨entries, rfl, hall⟩ := exists_entries hvalue
      have hafter := ne_of_behind hvalid
      have hcheck : next.check = .ok () :=
        check_property hvalid (List.mem_append_right _ List.mem_cons_self)
      obtain ⟨hfront, ⟨inner, hlookup, hinner⟩, hback⟩ := conformAll_split.mp hall
      obtain ⟨inner', hreplace, hinner', hat, hwords⟩ := ih hcheck hinner hother
      have hself : (Entries.insert name inner' entries).lookup name = some inner' :=
        Entries.lookup_insert_self name inner' entries
      have hsame : ∀ properties : List (String × ElementType),
          (∀ property ∈ properties, property.1 ≠ name) →
            propertyWords properties (Entries.insert name inner' entries)
              = propertyWords properties entries := fun properties hne =>
        propertyWords_congr fun property hmem =>
          Entries.lookup_insert_of_ne (hne property hmem) inner' entries
      refine ⟨.record (Entries.insert name inner' entries), ?_, ?_, ?_, ?_⟩
      · rw [Value.replace?, hlookup]
        simp only [Option.bind_some, hreplace, Option.map_some]
      · exact conformAll_split.mpr ⟨conformAll_insert hbefore hfront, ⟨inner', hself, hinner'⟩,
          conformAll_insert hafter hback⟩
      · rw [Value.at?, Value.get?, hself]
        exact hat
      · have hwithin : start + (target.words other).length ≤ (next.words inner).length := by
          rw [length_words target other hother, length_words next inner hinner]
          exact hnext.le_slotCount
        rw [words_struct hself, words_struct hlookup, hsame before hbefore, hsame after hafter,
          hwords, ← length_propertyWords before entries hfront, overwrite_within_append hwithin]

end Leads

/-! ### Encodings -/

/-- The words of a struct are what its properties are encoded as, one after the other. -/
theorem exists_propertyParts {properties : List (String × ElementType)} {entries : Entries Value}
    (hlisted : propertySlotCount properties ≤ Size.objectLimit)
    (h : ConformAll properties entries) :
    ∃ parts : List (List Word),
      List.Forall₂ (fun property words => ∃ part, entries.lookup property.1 = some part ∧
        property.2.encodeWords part = .ok words) properties parts ∧
      propertyWords properties entries = parts.flatten := by
  induction properties with
  | nil => exact ⟨[], .nil, rfl⟩
  | cons property rest ih =>
      obtain ⟨⟨part, hlookup, hpart⟩, hrest⟩ := h
      rw [propertySlotCount] at hlisted
      obtain ⟨parts, hparts, hwords⟩ := ih (by omega) hrest
      refine ⟨_ :: parts, .cons ⟨part, hlookup, encodeWords_eq (by omega) hpart⟩ hparts, ?_⟩
      rw [propertyWords, hlookup, hwords]
      rfl

/-- **Encoding is local to paths.**  A conforming value has an encoding, in every slot of which
the floating-point number is the one whose bits the word has.  The slots at the end of a path of
names, which begin at the sum of the offsets along it, hold what the part at that path is encoded
as by itself.  A struct is encoded as its properties one after the other, and each of its slots
belongs to exactly one of them.  Replacing the part at a path by another conforming one gives a
conforming value whose encoding differs at most within the slots of that path. -/
theorem encode_local {ty : ElementType} {value : Value} (hvalid : ty.check = .ok ())
    (hconforms : ty.Conforms value) (hmemory : value.FitsMemory) :
    ∃ lanes, ty.encode value = .ok lanes ∧
      lanes.ints.length = ty.slotCount ∧ lanes.floats = lanes.ints.map Binary32.ofWord ∧
      (∀ path target, ty.at? path = some target →
        ∃ start part nested, ty.start? path = some start ∧ value.at? path = some part ∧
          target.encode part = .ok nested ∧ start + target.slotCount ≤ ty.slotCount ∧
          window start target.slotCount lanes.ints = nested.ints) ∧
      (∀ properties, ty = struct properties →
        ∃ entries parts layout, value = .record entries ∧
          List.Forall₂ (fun property words => ∃ part, entries.lookup property.1 = some part ∧
            property.2.encodeWords part = .ok words) properties parts ∧
          lanes.ints = parts.flatten ∧
          (ty.layout : Outcome FieldError Layout) = .ok layout ∧
          ∀ slot, slot < lanes.ints.length → ∃! k : Nat, ∃ range : Nat × Nat,
            (layout.ranges properties)[k]? = some range ∧ range.1 ≤ slot ∧ slot < range.2) ∧
      ∀ path target other, ty.at? path = some target → target.Conforms other →
        ∃ start value' lanes', ty.start? path = some start ∧
          value.replace? path other = some value' ∧ ty.Conforms value' ∧
          value'.at? path = some other ∧ ty.encode value' = .ok lanes' ∧
          lanes'.ints.length = lanes.ints.length ∧
          ∀ slot, slot < start ∨ start + target.slotCount ≤ slot →
            lanes'.ints[slot]? = lanes.ints[slot]? ∧
            lanes'.floats[slot]? = lanes.floats[slot]? := by
  have hlisted := listed_of_fitsMemory hvalid hconforms hmemory
  have hlength := length_words ty value hconforms
  refine ⟨_, encode_eq ty value hlisted hconforms, hlength, rfl, ?_, ?_, ?_⟩
  · intro path target hat
    obtain ⟨start, hstart, hleads⟩ := leads_of_at? hat
    obtain ⟨part, hpart, hown, hwords⟩ := hleads.exists_part hconforms
    have hle := hleads.le_slotCount
    exact ⟨start, part, _, hstart, hpart, encode_eq target part (by omega) hown, hle, hwords⟩
  · rintro properties rfl
    obtain ⟨entries, rfl, hall⟩ := exists_entries hconforms
    obtain ⟨parts, hparts, hwords⟩ := exists_propertyParts hlisted hall
    have htiling := consecutive_ranges hvalid (layout_eq hlisted)
    refine ⟨entries, parts, _, rfl, hparts, hwords, layout_eq hlisted, fun slot hslot => ?_⟩
    refine htiling.existsUnique (Nat.zero_le slot) (Nat.lt_of_lt_of_eq hslot ?_)
    exact hlength.trans (length_slots _).symm
  · intro path target other hat hother
    obtain ⟨start, hstart, hleads⟩ := leads_of_at? hat
    obtain ⟨value', hreplace, hvalue', hfound, hwords⟩ :=
      hleads.exists_replaced hvalid hconforms hother
    have hlength' := length_words ty value' hvalue'
    have hle := hleads.le_slotCount
    have hapart : ∀ slot, slot < start ∨ start + target.slotCount ≤ slot →
        (ty.words value')[slot]? = (ty.words value)[slot]? := by
      intro slot hslot
      rw [hwords, getElem?_overwrite slot (by omega), length_words target other hother]
      rcases hslot with hslot | hslot
      · rw [if_pos hslot]
      · rw [if_neg (by omega), if_neg (by omega)]
    refine ⟨start, value', _, hstart, hreplace, hvalue', hfound, encode_eq ty value' hlisted hvalue',
      hlength'.trans hlength.symm, fun slot hslot => ⟨hapart slot hslot, ?_⟩⟩
    simp only [Lanes.ofWords, List.getElem?_map, hapart slot hslot]

/-- A scalar within a struct within a struct: its word stands at slot 2, and another number in
its place leaves slots 0, 1 and 3 as they are. -/
theorem encode_local_nested :
    let inner := struct [("m", vector .i32 1), ("w", scalar .f32)]
    let ty := struct [("head", scalar .i32), ("inner", inner), ("tail", scalar .i32)]
    let value : Value := .ofEntries
      [("head", .number (Binary64.ofInt 7)),
        ("inner", .ofEntries [("m", .vector [Binary64.ofInt 8]), ("w", .number (Binary64.ofInt 1))]),
        ("tail", .number (Binary64.ofInt (-1)))]
    ty.check = .ok () ∧ ty.Conforms value ∧ value.FitsMemory ∧
      ty.start? ["inner", "w"] = some 2 ∧
      ∃ lanes, ty.encode value = .ok lanes ∧ lanes.ints = [7, 8, 0x3f800000, 0xffffffff] ∧
        (∃ nested, (scalar .f32).encode (.number (Binary64.ofInt 1)) = .ok nested ∧
          window 2 1 lanes.ints = nested.ints) ∧
        ∃ value' lanes', value.replace? ["inner", "w"] (.number (Binary64.ofInt 2)) = some value' ∧
          ty.encode value' = .ok lanes' ∧
          ∀ slot, slot < 2 ∨ 3 ≤ slot → lanes'.ints[slot]? = lanes.ints[slot]? := by
  intro inner ty value
  have hvalid : ty.check = .ok () := by decide
  have hconforms : ty.Conforms value :=
    ⟨⟨_, rfl, trivial⟩, ⟨_, rfl, ⟨_, rfl, rfl⟩, ⟨_, rfl, trivial⟩, trivial⟩, ⟨_, rfl, trivial⟩,
      trivial⟩
  have hmemory : value.FitsMemory := by
    show Value.numberBytes * value.numberCount < Size.bound
    decide
  obtain ⟨lanes, hlanes, -, -, hparts, -, hreplaced⟩ := encode_local hvalid hconforms hmemory
  have hwords := encode_eq ty value (by decide) hconforms
  obtain ⟨start, part, nested, hstart, hpart, hnested, -, hwindow⟩ :=
    hparts ["inner", "w"] (scalar .f32) rfl
  cases hstart
  cases hpart
  obtain ⟨start, value', lanes', hstart, hreplace, -, -, hlanes', -, hapart⟩ :=
    hreplaced ["inner", "w"] (scalar .f32) (.number (Binary64.ofInt 2)) rfl trivial
  cases hstart
  refine ⟨hvalid, hconforms, hmemory, rfl, lanes, hlanes, ?_, ⟨nested, hnested, hwindow⟩,
    value', lanes', hreplace, hlanes', fun slot hslot => (hapart slot hslot).1⟩
  rw [hlanes] at hwords
  cases hwords
  decide +kernel

end ElementType

end FieldStore
