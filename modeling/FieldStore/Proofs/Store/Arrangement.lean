/-
Where the fields of a program lie.

The fields of one tree tile it: in the order of their declaration each begins where the one
before it ends, the first at the start of the tree and the last at its end.  A declaration
appends a field to the open tree, so it lengthens one tiling at its end and leaves the others
alone.  Whatever else happens to a tree changes neither its size nor its number of fields, and
so keeps the arrangement.
-/
import FieldStore.Proofs.Element.Layout
import FieldStore.Proofs.Grid.Shape
import FieldStore.Proofs.Machine.Bytes
import FieldStore.Store.Field

namespace FieldStore

/-! ### Tilings -/

/-- The fields of one tree, in the order of their declaration. -/
def fieldsIn (index : Nat) (fields : List Field) : List Field :=
  fields.filter fun field => field.tree == index

/-- The fields lie one behind the other from `start` to `stop`. -/
def Tiles : Nat → List Field → Nat → Prop
  | start, [], stop => start = stop
  | start, field :: rest, stop => field.offset = start ∧ Tiles (start + field.size) rest stop

theorem mem_fieldsIn {index : Nat} {fields : List Field} {field : Field} :
    field ∈ fieldsIn index fields ↔ field ∈ fields ∧ field.tree = index := by
  simp [fieldsIn]

theorem fieldsIn_concat_self {fields : List Field} {field : Field} :
    fieldsIn field.tree (fields ++ [field]) = fieldsIn field.tree fields ++ [field] := by
  simp [fieldsIn]

theorem fieldsIn_concat_of_ne {index : Nat} {fields : List Field} {field : Field}
    (h : field.tree ≠ index) : fieldsIn index (fields ++ [field]) = fieldsIn index fields := by
  simp [fieldsIn, h]

theorem tiles_concat :
    ∀ {fields : List Field} {start stop : Nat} {field : Field},
      Tiles start fields stop → field.offset = stop →
        Tiles start (fields ++ [field]) (stop + field.size) := by
  intro fields
  induction fields with
  | nil =>
      intro start stop field h hoffset
      cases h
      exact ⟨hoffset, rfl⟩
  | cons first rest ih =>
      intro start stop field h hoffset
      exact ⟨h.1, ih h.2 hoffset⟩

theorem tiles_le :
    ∀ {fields : List Field} {start stop : Nat}, Tiles start fields stop → start ≤ stop := by
  intro fields
  induction fields with
  | nil =>
      intro start stop h
      exact Nat.le_of_eq h
  | cons first rest ih =>
      intro start stop h
      have := ih h.2
      omega

/-- A field of a tiling lies between its ends. -/
theorem tiles_bounds :
    ∀ {fields : List Field} {start stop : Nat}, Tiles start fields stop →
      ∀ field ∈ fields, start ≤ field.offset ∧ field.offset + field.size ≤ stop := by
  intro fields
  induction fields with
  | nil => intro start stop _ field hmem; simp at hmem
  | cons first rest ih =>
      intro start stop h field hmem
      have hle := tiles_le h.2
      rcases List.mem_cons.mp hmem with rfl | hmem
      · have := h.1
        omega
      · have := ih h.2 field hmem
        omega

/-- Of two fields of a tiling the earlier one ends before the later one begins. -/
theorem tiles_pairwise :
    ∀ {fields : List Field} {start stop : Nat}, Tiles start fields stop →
      fields.Pairwise fun field later => field.offset + field.size ≤ later.offset := by
  intro fields
  induction fields with
  | nil => intro start stop _; exact List.Pairwise.nil
  | cons first rest ih =>
      intro start stop h
      refine List.Pairwise.cons ?_ (ih h.2)
      intro later hmem
      have hfirst := h.1
      have := tiles_bounds h.2 later hmem
      omega

/-- Fields of whole words tile a range of whole words. -/
theorem tiles_aligned :
    ∀ {fields : List Field} {start stop : Nat}, Tiles start fields stop →
      (∀ field ∈ fields, field.size % wordBytes = 0) → start % wordBytes = 0 →
        stop % wordBytes = 0 := by
  intro fields
  induction fields with
  | nil =>
      intro start stop h _ hstart
      cases h
      exact hstart
  | cons first rest ih =>
      intro start stop h hsizes hstart
      refine ih h.2 (fun field hmem => hsizes field (List.mem_cons_of_mem _ hmem)) ?_
      have hfirst := hsizes first List.mem_cons_self
      rw [Nat.add_mod, hstart, hfirst]
      rfl

/-! ### The arrangement -/

/-- The fields declared so far, in order, and the trees that they were placed in. -/
structure Arranged (fields : List Field) (trees : List Tree) : Prop where
  /-- Every field lies in one of the trees. -/
  tree_lt : ∀ field ∈ fields, field.tree < trees.length
  /-- Its type is one that a field may have, and its slots can be listed. -/
  valid : ∀ field ∈ fields,
    field.type.check = .ok () ∧ field.type.slotCount ≤ Size.objectLimit
  /-- It has one word for every slot of every element. -/
  size_eq : ∀ field ∈ fields,
    field.size = field.shape.dims.prod * field.type.slotCount * wordBytes
  /-- It begins between two words. -/
  aligned : ∀ field ∈ fields, field.offset % wordBytes = 0
  /-- The fields of a tree lie one behind the other from its start to its end. -/
  tiles : ∀ (index : Nat) (tree : Tree), trees[index]? = some tree →
    Tiles 0 (fieldsIn index fields) tree.size
  /-- They are counted. -/
  counted : ∀ (index : Nat) (tree : Tree), trees[index]? = some tree →
    tree.fields = (fieldsIn index fields).length
  /-- No tree is without a field or without room. -/
  occupied : ∀ (index : Nat) (tree : Tree), trees[index]? = some tree →
    0 < tree.fields ∧ 0 < tree.size
  /-- The end of a tree has an address. -/
  addressed : ∀ (index : Nat) (tree : Tree), trees[index]? = some tree → tree.size < Size.bound
  /-- Only the last tree can be open to further fields. -/
  closed : ∀ (index : Nat) (tree : Tree), trees[index]? = some tree →
    index + 1 < trees.length → tree.isSealed = true

theorem arranged_nil : Arranged [] [] := by
  constructor <;> simp

/-! ### Declaration -/

theorem openTree_cases (trees : List Tree) :
    (∃ closed last, trees = closed ++ [last] ∧ last.isSealed = false ∧
        Program.openTree trees = (closed, last)) ∨
      ((∀ last, trees.getLast? = some last → last.isSealed = true) ∧
        Program.openTree trees = (trees, Tree.empty)) := by
  cases hlast : trees.getLast? with
  | none =>
      refine Or.inr ⟨by simp, ?_⟩
      rw [Program.openTree, hlast]
  | some last =>
      obtain ⟨closed, rfl⟩ := List.getLast?_eq_some_iff.mp hlast
      by_cases hsealed : last.isSealed = true
      · refine Or.inr ⟨by simp [hsealed], ?_⟩
        simp [Program.openTree, hsealed]
      · refine Or.inl ⟨closed, last, rfl, by simpa using hsealed, ?_⟩
        simp [Program.openTree, hsealed]

/-- The open tree, lengthened by one more field. -/
def Tree.lengthen (tree : Tree) (size : Nat) : Tree :=
  { tree with size := tree.size + size, fields := tree.fields + 1 }

/-- What a successful declaration has done. -/
theorem declare_eq_ok {program program' : Program} {ty : ElementType} {dims : List Nat}
    {field : Field} (h : program.declare ty dims = .ok (field, program')) :
    ∃ closed tree, Program.openTree program.trees = (closed, tree) ∧
      ty.check = .ok () ∧ ty.slotCount ≤ Size.objectLimit ∧
      field.tree = closed.length ∧ field.offset = tree.size ∧
      field.size = dims.prod * ty.slotCount * wordBytes ∧
      field.shape.dims = dims ∧ field.type = ty ∧ tree.size + field.size < Size.bound ∧
      program' = { program with trees := closed ++ [tree.lengthen field.size] } := by
  rw [Program.declare, bind_eq_ok] at h
  obtain ⟨ty', hvalid, h⟩ := h
  obtain ⟨hcheck, rfl⟩ := ElementType.validate_eq_ok hvalid
  rw [bind_eq_ok] at h
  obtain ⟨shape, hshape, h⟩ := h
  have hdims := Shape.dims_of_ofDims hshape
  rw [Program.place, bind_eq_ok] at h
  obtain ⟨total, htotal, h⟩ := h
  rw [bind_eq_ok] at h
  obtain ⟨width, hwidth, h⟩ := h
  rw [bind_eq_ok] at h
  obtain ⟨size, hsize, h⟩ := h
  rcases hopen : Program.openTree program.trees with ⟨closed, tree⟩
  simp only [hopen, bind_eq_ok] at h
  obtain ⟨stop, hstop, h⟩ := h
  cases h
  obtain ⟨rfl, hfits⟩ := ElementType.byteSize_eq_ok hwidth
  obtain ⟨rfl, -⟩ := Size.product_eq_ok htotal
  obtain ⟨rfl, -⟩ := Size.mul_eq_ok_iff.mp hsize
  obtain ⟨rfl, hbound⟩ := Size.add_eq_ok_iff.mp hstop
  rw [← hdims, ← Nat.mul_assoc] at *
  exact ⟨closed, tree, rfl, hcheck, hfits, rfl, rfl, rfl, rfl, rfl, hbound, rfl⟩

/-- What is known of the trees that a declaration leaves alone and of the one that it lengthens. -/
theorem Arranged.opened {fields : List Field} {trees closed : List Tree} {tree : Tree}
    (h : Arranged fields trees) (hopen : Program.openTree trees = (closed, tree)) :
    (∀ (index : Nat) (kept : Tree), closed[index]? = some kept →
        trees[index]? = some kept ∧ kept.isSealed = true) ∧
      (∀ field ∈ fields, field.tree ≤ closed.length) ∧
      Tiles 0 (fieldsIn closed.length fields) tree.size ∧
      tree.fields = (fieldsIn closed.length fields).length := by
  rcases openTree_cases trees with ⟨front, last, rfl, hunsealed, heq⟩ | ⟨hsealed, heq⟩
  · cases hopen.symm.trans heq
    have hlast : (closed ++ [tree])[closed.length]? = some tree := by simp
    refine ⟨?_, ?_, h.tiles _ _ hlast, h.counted _ _ hlast⟩
    · intro index kept hkept
      obtain ⟨hlt, -⟩ := List.getElem?_eq_some_iff.mp hkept
      have hget : (closed ++ [tree])[index]? = some kept := by
        rw [List.getElem?_append_left hlt, hkept]
      exact ⟨hget, h.closed _ _ hget (by simpa using hlt)⟩
    · intro field hmem
      have := h.tree_lt field hmem
      simp only [List.length_append, List.length_singleton] at this
      omega
  · cases hopen.symm.trans heq
    have hnone : fieldsIn trees.length fields = [] := by
      rw [fieldsIn, List.filter_eq_nil_iff]
      intro field hmem hc
      have := h.tree_lt field hmem
      have : field.tree = trees.length := by simpa using hc
      omega
    refine ⟨?_, fun field hmem => Nat.le_of_lt (h.tree_lt field hmem), by rw [hnone]; rfl,
      by rw [hnone]; rfl⟩
    intro index kept hkept
    refine ⟨hkept, ?_⟩
    by_cases hlt : index + 1 < trees.length
    · exact h.closed index kept hkept hlt
    · obtain ⟨hindex, -⟩ := List.getElem?_eq_some_iff.mp hkept
      have hlast : trees.getLast? = some kept := by
        rw [List.getLast?_eq_getElem?, show trees.length - 1 = index by omega, hkept]
      exact hsealed kept hlast

theorem size_pos {field : Field} (hcheck : field.type.check = .ok ())
    (hsize : field.size = field.shape.dims.prod * field.type.slotCount * wordBytes) :
    0 < field.size := by
  have hprod : 0 < field.shape.dims.prod :=
    List.prod_pos_iff_forall_pos_nat.mpr field.shape.dims_pos
  rw [hsize]
  exact Nat.mul_pos (Nat.mul_pos hprod (ElementType.slotCount_pos hcheck)) wordBytes_pos

theorem getElem?_concat_cases {α : Type} {front : List α} {last found : α} {index : Nat}
    (h : (front ++ [last])[index]? = some found) :
    front[index]? = some found ∨ index = front.length ∧ found = last := by
  rcases Nat.lt_trichotomy index front.length with hlt | rfl | hgt
  · rw [List.getElem?_append_left hlt] at h
    exact Or.inl h
  · rw [List.getElem?_concat_length] at h
    exact Or.inr ⟨rfl, (Option.some.inj h).symm⟩
  · rw [List.getElem?_eq_none (by simpa using Nat.succ_le_of_lt hgt)] at h
    cases h

/-- What holds of the closed trees and of the open one holds of all. -/
theorem forall_getElem?_concat {closed : List Tree} {last : Tree} {P : Nat → Tree → Prop}
    (hclosed : ∀ (index : Nat) (tree : Tree), closed[index]? = some tree → P index tree)
    (hlast : P closed.length last) :
    ∀ (index : Nat) (tree : Tree), (closed ++ [last])[index]? = some tree → P index tree := by
  intro index tree hget
  rcases getElem?_concat_cases hget with hold | ⟨rfl, rfl⟩
  · exact hclosed index tree hold
  · exact hlast

/-- **A declaration keeps the arrangement.** -/
theorem Arranged.declare {fields : List Field} {program program' : Program} {ty : ElementType}
    {dims : List Nat} {field : Field} (h : Arranged fields program.trees)
    (hdeclare : program.declare ty dims = .ok (field, program')) :
    Arranged (fields ++ [field]) program'.trees := by
  obtain ⟨closed, tree, hopen, hcheck, hfits, htree, hoffset, hsize, hdims, htype, hbound, rfl⟩ :=
    declare_eq_ok hdeclare
  obtain ⟨hkept, hbefore, htiles, hcount⟩ := h.opened hopen
  have hsize' : field.size = field.shape.dims.prod * field.type.slotCount * wordBytes := by
    rw [hsize, hdims, htype]
  have hadd : ∀ {P : Field → Prop}, (∀ other ∈ fields, P other) → P field →
      ∀ other ∈ fields ++ [field], P other := fun hold hnew =>
    List.forall_mem_append.mpr ⟨hold, List.forall_mem_singleton.mpr hnew⟩
  -- The new field lies in none of the closed trees.
  have hne : ∀ {index : Nat} {kept : Tree}, closed[index]? = some kept → field.tree ≠ index := by
    intro index kept hget
    rw [htree]
    exact Nat.ne_of_gt (List.getElem?_eq_some_iff.mp hget).1
  constructor
  case tree_lt =>
    rw [List.length_append, List.length_singleton]
    exact hadd (fun other hmem => Nat.lt_succ_of_le (hbefore other hmem))
      (htree ▸ Nat.lt_succ_self _)
  case valid => exact hadd h.valid (htype ▸ ⟨hcheck, hfits⟩)
  case size_eq => exact hadd h.size_eq hsize'
  case aligned =>
    refine hadd h.aligned ?_
    rw [hoffset]
    refine tiles_aligned htiles ?_ rfl
    intro other hmem
    rw [h.size_eq other (mem_fieldsIn.mp hmem).1, Nat.mul_mod_left]
  case tiles =>
    refine forall_getElem?_concat ?_ ?_
    · intro index kept hget
      rw [fieldsIn_concat_of_ne (hne hget)]
      exact h.tiles index kept (hkept index kept hget).1
    · rw [← htree, fieldsIn_concat_self, htree]
      exact tiles_concat htiles hoffset
  case counted =>
    refine forall_getElem?_concat ?_ ?_
    · intro index kept hget
      rw [fieldsIn_concat_of_ne (hne hget)]
      exact h.counted index kept (hkept index kept hget).1
    · rw [← htree, fieldsIn_concat_self, htree, List.length_append, ← hcount]
      rfl
  case occupied =>
    refine forall_getElem?_concat (fun index kept hget => ?_) ?_
    · exact h.occupied index kept (hkept index kept hget).1
    · exact ⟨Nat.succ_pos _, Nat.add_pos_right _ (size_pos (htype ▸ hcheck) hsize')⟩
  case addressed =>
    exact forall_getElem?_concat
      (fun index kept hget => h.addressed index kept (hkept index kept hget).1) hbound
  case closed =>
    refine forall_getElem?_concat (fun index kept hget _ => (hkept index kept hget).2) ?_
    intro hlt
    simp at hlt

/-! ### Everything else -/

/-- What can become of a tree once no field joins it: it is closed, and it is given storage if it
has none.  A tree that has storage stays as it is. -/
structure Tree.Becomes (tree tree' : Tree) : Prop where
  size : tree'.size = tree.size
  fields : tree'.fields = tree.fields
  isSealed : tree.isSealed = true → tree'.isSealed = true
  kept : tree.storage.isSome = true → tree' = tree

theorem Tree.Becomes.refl (tree : Tree) : tree.Becomes tree := ⟨rfl, rfl, id, fun _ => rfl⟩

theorem Tree.Becomes.trans {tree tree' tree'' : Tree} (h : tree.Becomes tree')
    (h' : tree'.Becomes tree'') : tree.Becomes tree'' := by
  refine ⟨h'.size.trans h.size, h'.fields.trans h.fields, fun hs => h'.isSealed (h.isSealed hs), ?_⟩
  intro hsome
  have heq := h.kept hsome
  rw [← heq]
  exact h'.kept (heq ▸ hsome)

/-- What becomes of the trees of a program, one by one. -/
structure TreesBecome (trees trees' : List Tree) : Prop where
  length : trees'.length = trees.length
  becomes : ∀ (index : Nat) (tree : Tree), trees[index]? = some tree →
    ∃ tree', trees'[index]? = some tree' ∧ tree.Becomes tree'

namespace TreesBecome

variable {trees trees' trees'' : List Tree}

theorem refl (trees : List Tree) : TreesBecome trees trees :=
  ⟨rfl, fun _ tree h => ⟨tree, h, .refl tree⟩⟩

theorem trans (h : TreesBecome trees trees') (h' : TreesBecome trees' trees'') :
    TreesBecome trees trees'' := by
  refine ⟨h'.length.trans h.length, ?_⟩
  intro index tree hget
  obtain ⟨tree', hget', hbecomes⟩ := h.becomes index tree hget
  obtain ⟨tree'', hget'', hbecomes'⟩ := h'.becomes index tree' hget'
  exact ⟨tree'', hget'', hbecomes.trans hbecomes'⟩

/-- Every tree comes from one. -/
theorem source (h : TreesBecome trees trees') {index : Nat} {tree' : Tree}
    (hget : trees'[index]? = some tree') :
    ∃ tree, trees[index]? = some tree ∧ tree.Becomes tree' := by
  obtain ⟨hlt, -⟩ := List.getElem?_eq_some_iff.mp hget
  rw [h.length] at hlt
  have hold : trees[index]? = some trees[index] := List.getElem?_eq_getElem hlt
  obtain ⟨tree'', hget'', hbecomes⟩ := h.becomes index _ hold
  cases hget.symm.trans hget''
  exact ⟨_, hold, hbecomes⟩

end TreesBecome

/-- Closing trees and giving them storage keeps the arrangement. -/
theorem Arranged.become {fields : List Field} {trees trees' : List Tree}
    (h : Arranged fields trees) (hbecome : TreesBecome trees trees') : Arranged fields trees' := by
  constructor
  case tree_lt =>
    intro field hmem
    rw [hbecome.length]
    exact h.tree_lt field hmem
  case valid => exact h.valid
  case size_eq => exact h.size_eq
  case aligned => exact h.aligned
  case tiles =>
    intro index tree' hget
    obtain ⟨tree, hold, hbecomes⟩ := hbecome.source hget
    rw [hbecomes.size]
    exact h.tiles index tree hold
  case counted =>
    intro index tree' hget
    obtain ⟨tree, hold, hbecomes⟩ := hbecome.source hget
    rw [hbecomes.fields]
    exact h.counted index tree hold
  case occupied =>
    intro index tree' hget
    obtain ⟨tree, hold, hbecomes⟩ := hbecome.source hget
    rw [hbecomes.fields, hbecomes.size]
    exact h.occupied index tree hold
  case addressed =>
    intro index tree' hget
    obtain ⟨tree, hold, hbecomes⟩ := hbecome.source hget
    rw [hbecomes.size]
    exact h.addressed index tree hold
  case closed =>
    intro index tree' hget hlt
    obtain ⟨tree, hold, hbecomes⟩ := hbecome.source hget
    exact hbecomes.isSealed (h.closed index tree hold (hbecome.length ▸ hlt))

/-- A tree is a whole number of words. -/
theorem Arranged.size_aligned {fields : List Field} {trees : List Tree} {index : Nat} {tree : Tree}
    (h : Arranged fields trees) (hget : trees[index]? = some tree) :
    tree.size % wordBytes = 0 := by
  refine tiles_aligned (h.tiles index tree hget) ?_ rfl
  intro field hmem
  rw [h.size_eq field (mem_fieldsIn.mp hmem).1, Nat.mul_mod_left]

end FieldStore
