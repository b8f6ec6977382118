/-
The properties of a struct tile its slots.

Each property begins where the one before it ends, the first at slot 0, and the last ends with
the struct.  A well-formed property takes at least one slot, so none of the ranges is empty; and
since they lie one behind the other, each slot of the struct belongs to exactly one of them.

A layout lists its slots, so there is one only for a type whose slots fit in one object.  All
laws of layouts are about those types.
-/
import FieldStore.Error
import FieldStore.Proofs.Element.Path
import Mathlib.Algebra.GroupWithZero.Nat
import Mathlib.Data.List.Forall2

namespace FieldStore

/-! ### Ranges one behind the other -/

/-- The ranges, each from its first slot up to but not including its second, lie one behind the
other from `start` to `stop`, and none of them is empty. -/
def Consecutive : Nat → List (Nat × Nat) → Nat → Prop
  | start, [], stop => start = stop
  | start, range :: rest, stop =>
      range.1 = start ∧ start < range.2 ∧ Consecutive range.2 rest stop

namespace Consecutive

theorem le : ∀ {ranges : List (Nat × Nat)} {start stop : Nat},
    Consecutive start ranges stop → start ≤ stop := by
  intro ranges
  induction ranges with
  | nil =>
      intro start stop h
      exact Nat.le_of_eq h
  | cons range rest ih =>
      intro start stop h
      obtain ⟨-, hlt, hrest⟩ := h
      have := ih hrest
      omega

theorem bounds : ∀ {ranges : List (Nat × Nat)} {start stop : Nat},
    Consecutive start ranges stop → ∀ range ∈ ranges, start ≤ range.1 ∧ range.2 ≤ stop := by
  intro ranges
  induction ranges with
  | nil => intro start stop _ range hmem; simp at hmem
  | cons first rest ih =>
      intro start stop h range hmem
      obtain ⟨hstart, hlt, hrest⟩ := h
      have hle := le hrest
      rcases List.mem_cons.mp hmem with rfl | hmem
      · omega
      · have := ih hrest range hmem
        omega

theorem nonempty {ranges : List (Nat × Nat)} : ∀ {start stop : Nat},
    Consecutive start ranges stop → ∀ range ∈ ranges, range.1 < range.2 := by
  induction ranges with
  | nil => intro start stop _ range hmem; simp at hmem
  | cons first rest ih =>
      intro start stop h range hmem
      obtain ⟨hstart, hlt, hrest⟩ := h
      rcases List.mem_cons.mp hmem with rfl | hmem
      · omega
      · exact ih hrest range hmem

/-- Of two ranges the earlier one ends before the later one begins. -/
theorem pairwise : ∀ {ranges : List (Nat × Nat)} {start stop : Nat},
    Consecutive start ranges stop →
      ranges.Pairwise fun range later => range.2 ≤ later.1 := by
  intro ranges
  induction ranges with
  | nil => intro start stop _; exact List.Pairwise.nil
  | cons first rest ih =>
      intro start stop h
      obtain ⟨-, -, hrest⟩ := h
      exact List.Pairwise.cons (fun later hmem => (bounds hrest later hmem).1) (ih hrest)

/-- What lies between the two ends lies in exactly one of the ranges. -/
theorem existsUnique : ∀ {ranges : List (Nat × Nat)} {start stop slot : Nat},
    Consecutive start ranges stop → start ≤ slot → slot < stop →
      ∃! k : Nat, ∃ range : Nat × Nat, ranges[k]? = some range ∧ range.1 ≤ slot ∧ slot < range.2 := by
  intro ranges
  induction ranges with
  | nil =>
      intro start stop slot h hle hlt
      cases h
      omega
  | cons first rest ih =>
      intro start stop slot h hle hlt
      obtain ⟨hstart, -, hrest⟩ := h
      by_cases hin : slot < first.2
      · refine ⟨0, ⟨first, rfl, by omega, hin⟩, ?_⟩
        rintro k ⟨range, hrange, hfrom, -⟩
        cases k with
        | zero => rfl
        | succ k =>
            have := (bounds hrest range (List.mem_of_getElem? hrange)).1
            omega
      · obtain ⟨k, ⟨range, hrange, hwithin⟩, hunique⟩ := ih hrest (by omega) hlt
        refine ⟨k + 1, ⟨range, hrange, hwithin⟩, ?_⟩
        rintro k' ⟨range', hrange', hfrom', hto'⟩
        cases k' with
        | zero =>
            cases hrange'
            omega
        | succ k' => rw [hunique k' ⟨range', hrange', hfrom', hto'⟩]

/-- The ranges cover what lies between the two ends, and nothing else. -/
theorem covers {ranges : List (Nat × Nat)} {start stop : Nat} (h : Consecutive start ranges stop)
    (slot : Nat) :
    start ≤ slot ∧ slot < stop ↔ ∃ range ∈ ranges, range.1 ≤ slot ∧ slot < range.2 := by
  constructor
  · intro hslot
    obtain ⟨k, ⟨range, hrange, hwithin⟩, -⟩ := h.existsUnique hslot.1 hslot.2
    exact ⟨range, List.mem_of_getElem? hrange, hwithin⟩
  · rintro ⟨range, hmem, hwithin⟩
    have := h.bounds range hmem
    omega

end Consecutive

/-- The range of slots of each property: from its offset up to where its own slots end. -/
def Layout.ranges (layout : Layout) (properties : List (String × ElementType)) :
    List (Nat × Nat) :=
  layout.offsets.zipWith (fun entry property => (entry.2, entry.2 + property.2.slotCount)) properties

namespace ElementType

/-! ### The layout of a type -/

theorem layout_eq_ok_iff {ε : Type} {ty : ElementType} {layout : Layout} :
    (ty.layout : Outcome ε Layout) = .ok layout ↔
      ty.slotCount ≤ Size.objectLimit ∧ layout = ⟨ty.slots, ty.offsets⟩ := by
  unfold ElementType.layout
  rw [bind_eq_ok]
  simp only [Size.reserve_eq_ok_iff, slotWidth, Nat.one_mul]
  constructor
  · rintro ⟨-, hlisted, heq⟩
    cases heq
    exact ⟨hlisted, rfl⟩
  · rintro ⟨hlisted, rfl⟩
    exact ⟨(), hlisted, rfl⟩

theorem layout_eq {ε : Type} {ty : ElementType} (hlisted : ty.slotCount ≤ Size.objectLimit) :
    (ty.layout : Outcome ε Layout) = .ok ⟨ty.slots, ty.offsets⟩ :=
  layout_eq_ok_iff.mpr ⟨hlisted, rfl⟩

/-- The properties of a well-formed struct lie one behind the other. -/
theorem consecutive_offsetsFrom :
    ∀ {properties : List (String × ElementType)} (start : Nat),
      (∀ property ∈ properties, property.2.check = .ok ()) →
        Consecutive start
          ((offsetsFrom start properties).zipWith
            (fun entry property => (entry.2, entry.2 + property.2.slotCount)) properties)
          (start + propertySlotCount properties) := by
  intro properties
  induction properties with
  | nil => intro start _; rfl
  | cons property rest ih =>
      intro start hvalid
      have hpos := slotCount_pos (hvalid property List.mem_cons_self)
      have hrest := ih (start + property.2.slotCount) fun other hmem =>
        hvalid other (List.mem_cons_of_mem _ hmem)
      rw [propertySlotCount, ← Nat.add_assoc]
      exact ⟨rfl, Nat.lt_add_of_pos_right hpos, hrest⟩

theorem consecutive_ranges {properties : List (String × ElementType)} {layout : Layout}
    (hvalid : (struct properties).check = .ok ())
    (hlayout : ((struct properties).layout : Outcome FieldError Layout) = .ok layout) :
    Consecutive 0 (layout.ranges properties) layout.length := by
  obtain ⟨hall, -, -⟩ := check_struct_iff.mp hvalid
  have htiling := consecutive_offsetsFrom 0 (checkProperties_iff.mp hall)
  obtain ⟨-, rfl⟩ := layout_eq_ok_iff.mp hlayout
  rwa [Nat.zero_add, ← length_propertySlots] at htiling

/-- A struct has as many slots as the layouts of its properties together. -/
theorem forall₂_layout {properties : List (String × ElementType)}
    (hlisted : propertySlotCount properties ≤ Size.objectLimit) :
    ∃ nested : List Layout,
      List.Forall₂ (fun property layout =>
        (property.2.layout : Outcome FieldError Layout) = .ok layout) properties nested ∧
      propertySlotCount properties = (nested.map Layout.length).sum := by
  induction properties with
  | nil => exact ⟨[], .nil, rfl⟩
  | cons property rest ih =>
      rw [propertySlotCount] at hlisted
      obtain ⟨nested, hnested, hsum⟩ := ih (by omega)
      refine ⟨_ :: nested, .cons (layout_eq (by omega)) hnested, ?_⟩
      rw [propertySlotCount, hsum, List.map_cons, List.sum_cons, Layout.length, length_slots]

/-- A name that is declared once is found with the offset that stands beside it. -/
theorem lookup_offsets {ty : ElementType} (hvalid : ty.check = .ok ()) :
    ∀ entry ∈ ty.offsets, ty.offsets.lookup entry.1 = some entry.2 := by
  cases ty with
  | scalar | vector | matrix => intro entry hmem; simp [offsets, properties, offsetsFrom] at hmem
  | struct properties =>
      obtain ⟨-, -, hnames⟩ := check_struct_iff.mp hvalid
      rw [← map_fst_offsetsFrom properties 0] at hnames
      intro entry hmem
      obtain ⟨before, after, hsplit⟩ := List.append_of_mem hmem
      refine List.lookup_eq_some_iff.mpr ⟨before, after, hsplit, ?_⟩
      intro other hother
      rw [offsets, ElementType.properties] at hsplit
      rw [hsplit, List.map_append, List.map_cons] at hnames
      have hne := (List.nodup_append.mp hnames).2.2 other.1 (List.mem_map_of_mem hother) entry.1
        List.mem_cons_self
      exact bne_iff_ne.mpr hne.symm

/-- **A layout is a tiling.**  It lists at least one slot, as many as the form of the type says.
The properties of a struct lie in declared order one behind the other from its first slot to its
last; no two of them overlap, none is empty and none of the slots is left out.  A declared name
is found with its own offset and no other name is found.  At the end of every path of names, at
the sum of the offsets along it, stand the slots of the type that the path leads to. -/
theorem layout_tiles {ty : ElementType} (hvalid : ty.check = .ok ())
    (hlisted : ty.slotCount ≤ Size.objectLimit) :
    ∃ layout : Layout, (ty.layout : Outcome FieldError Layout) = .ok layout ∧
      layout.isEmpty = false ∧ layout.size = wordBytes * layout.length ∧
      (match ty with
        | scalar _ => layout.length = 1
        | vector _ rows => layout.length = rows
        | matrix _ rows cols => layout.length = rows * cols
        | struct properties => ∃ nested : List Layout,
            List.Forall₂ (fun property inner =>
              (property.2.layout : Outcome FieldError Layout) = .ok inner) properties nested ∧
            layout.length = (nested.map Layout.length).sum) ∧
      (∀ properties, ty = struct properties →
        Consecutive 0 (layout.ranges properties) layout.length ∧
        (layout.ranges properties).Pairwise (fun range later => range.2 ≤ later.1) ∧
        (∀ range ∈ layout.ranges properties, range.1 < range.2) ∧
        ∀ slot, slot < layout.length ↔
          ∃ range ∈ layout.ranges properties, range.1 ≤ slot ∧ slot < range.2) ∧
      layout.offsets.map Prod.fst = ty.properties.map Prod.fst ∧
      (∀ entry ∈ layout.offsets, layout.offset? entry.1 = some entry.2) ∧
      (∀ name, name ∉ ty.properties.map Prod.fst → layout.offset? name = none) ∧
      ∀ path target, ty.at? path = some target →
        ∃ start nested, ty.start? path = some start ∧
          (target.layout : Outcome FieldError Layout) = .ok nested ∧
          window start nested.length layout.slots = nested.slots := by
  have hlength : Layout.length ⟨ty.slots, ty.offsets⟩ = ty.slotCount := length_slots ty
  refine ⟨_, layout_eq hlisted, ?_, Nat.mul_comm .., ?_, ?_, ?_, lookup_offsets hvalid, ?_, ?_⟩
  · have hpos := slotCount_pos hvalid
    rw [Layout.isEmpty, List.isEmpty_eq_false_iff, ← List.length_pos_iff, length_slots]
    exact hpos
  · rw [hlength]
    cases ty with
    | scalar | vector | matrix => rfl
    | struct properties => exact forall₂_layout hlisted
  · rintro properties rfl
    have htiling := consecutive_ranges hvalid (layout_eq hlisted)
    refine ⟨htiling, htiling.pairwise, htiling.nonempty, fun slot => ?_⟩
    rw [← htiling.covers slot, and_iff_right (Nat.zero_le slot)]
  · exact map_fst_offsetsFrom ty.properties 0
  · intro name hname
    rw [← map_fst_offsetsFrom ty.properties 0] at hname
    refine List.lookup_eq_none_iff.mpr fun entry hmem => bne_iff_ne.mpr fun heq => hname ?_
    rw [heq]
    exact List.mem_map_of_mem hmem
  · intro path target hat
    obtain ⟨start, hstart, hleads⟩ := leads_of_at? hat
    have hle := hleads.le_slotCount
    refine ⟨start, _, hstart, layout_eq (by omega), ?_⟩
    rw [Layout.length, length_slots]
    exact hleads.window_slots

/-- A struct within a struct: the name `w` leads to slot 5, behind the matrix beside it. -/
theorem layout_tiles_nested :
    let inner := struct [("m", matrix .i32 2 2), ("w", scalar .f32)]
    let ty := struct [("head", scalar .f32), ("inner", inner), ("tail", vector .i32 3)]
    ty.check = .ok () ∧ ty.slotCount ≤ Size.objectLimit ∧
      ∃ layout : Layout, (ty.layout : Outcome FieldError Layout) = .ok layout ∧
        layout.length = 9 ∧ layout.ranges ty.properties = [(0, 1), (1, 6), (6, 9)] ∧
        Consecutive 0 (layout.ranges ty.properties) layout.length ∧
        layout.offset? "tail" = some 6 ∧ layout.offset? "w" = none ∧
        ty.start? ["inner", "w"] = some 5 ∧ window 5 1 layout.slots = [.f32] := by
  intro inner ty
  have hvalid : ty.check = .ok () := by decide
  have hlisted : ty.slotCount ≤ Size.objectLimit := by decide
  obtain ⟨layout, hlayout, -, -, -, hranges, -, hfound, hother, hpath⟩ :=
    layout_tiles hvalid hlisted
  obtain ⟨-, hshape⟩ := layout_eq_ok_iff.mp hlayout
  obtain ⟨start, nested, hstart, hnested, hwindow⟩ := hpath ["inner", "w"] (scalar .f32) rfl
  obtain ⟨-, rfl⟩ := layout_eq_ok_iff.mp hnested
  cases hstart
  refine ⟨hvalid, hlisted, layout, hlayout, ?_, ?_, (hranges _ rfl).1, ?_,
    hother "w" (by decide), rfl, hwindow⟩
  · rw [hshape]
    rfl
  · rw [hshape]
    rfl
  · exact hfound ("tail", 6) (by rw [hshape]; decide)

/-- A vector whose slots fit no object has no layout, though they can be counted. -/
theorem layout_of_unlistable :
    (vector .f32 0x8000000000000000).check = .ok () ∧
      (vector .f32 0x8000000000000000).slotCount < Size.bound ∧
      ∀ layout, ((vector .f32 0x8000000000000000).layout : Outcome FieldError Layout)
        ≠ .ok layout := by
  refine ⟨by decide, by decide, ?_⟩
  intro layout h
  have hlisted := (layout_eq_ok_iff.mp h).1
  exact absurd hlisted (by decide)

end ElementType

end FieldStore
