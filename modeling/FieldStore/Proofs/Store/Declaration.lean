/-
How declarations end.

The next field goes behind the fields of the open tree, so it begins where their sizes add up to
and ends at the bytes of its own slots further on.  A declaration is told by that end, taken as a
natural number.  If the end has an address, the field is there with every size exact: the
product of the axes, the bytes of one element, the bytes of all of them and the new size of the
tree are each at most the end, so none of them was wrapped.  A malformed type or a malformed list
of axes is refused before any size is computed.

An end without an address is not refused.  The product of the axes, the slots of the type, the
bytes of the field and the sum with what is in the tree already are computed one after the other
and none of them is checked, so the first one that does not fit is a fault.  Nothing has been
changed by then.
-/
import FieldStore.Proofs.Store.Placement
import Mathlib.Algebra.GroupWithZero.Nat

namespace FieldStore

/-- A tiling ends where the sizes of its fields add up to. -/
theorem tiles_sum :
    ∀ {fields : List Field} {start stop : Nat}, Tiles start fields stop →
      stop = start + (fields.map Field.size).sum := by
  intro fields
  induction fields with
  | nil =>
      intro start stop h
      exact h.symm
  | cons first rest ih =>
      intro start stop h
      have hrest := ih h.2
      rw [List.map_cons, List.sum_cons]
      omega

/-- Only the place behind a list is touched by what is put there. -/
theorem getElem?_concat_of_ne_length {closed : List Tree} {last : Tree} {index : Nat}
    (h : index ≠ closed.length) : (closed ++ [last])[index]? = closed[index]? := by
  rcases Nat.lt_or_gt_of_ne h with hlt | hgt
  · exact List.getElem?_append_left hlt
  · rw [List.getElem?_eq_none (by simpa using Nat.succ_le_of_lt hgt),
      List.getElem?_eq_none (Nat.le_of_lt hgt)]

/-! ### Types and axes -/

namespace ElementType

variable {ty : ElementType} {ε : Type}

theorem validate_of_ok (h : ty.check = .ok ()) : ty.validate = .ok ty := by
  rw [validate, h]

theorem validate_of_error {cause : Malformed} (h : ty.check = .error cause) :
    ty.validate = .error (.error (.malformed (.elementType cause))) := by
  rw [validate, h]

theorem byteSize_of_le (h : ty.slotCount ≤ Size.objectLimit) :
    (ty.byteSize : Outcome ε Nat) = .ok (ty.slotCount * wordBytes) := by
  rw [byteSize, slotTotal_of_le h]
  rfl

theorem byteSize_of_lt (h : Size.objectLimit < ty.slotCount) :
    (ty.byteSize : Outcome ε Nat) = .error (.fault .capacity) := by
  rw [byteSize, slotTotal_of_lt h]
  rfl

end ElementType

namespace Shape

variable {dims : List Nat}

theorem ofDims_of_pos (hne : dims ≠ []) (hzero : 0 ∉ dims) :
    ∃ shape : Shape, ofDims dims = .ok shape ∧ shape.dims = dims := by
  have hpos : ∀ d ∈ dims, 0 < d := fun d hmem =>
    Nat.pos_of_ne_zero fun hd => hzero (hd ▸ hmem)
  exact ⟨⟨dims, hne, hpos⟩, by rw [ofDims, dif_neg hne, dif_pos hpos], rfl⟩

/-- The first empty axis is named. -/
theorem ofDims_of_zero (hzero : 0 ∈ dims) :
    ofDims dims = .error (.error (.malformed (.zeroAxis (dims.findIdx (· == 0)) dims))) := by
  have hne : dims ≠ [] := List.ne_nil_of_mem hzero
  have hpos : ¬ ∀ d ∈ dims, 0 < d := fun h => absurd (h 0 hzero) (Nat.lt_irrefl 0)
  rw [ofDims, dif_neg hne, dif_neg hpos]

end Shape

/-! ### The place of a field -/

namespace Program

/-- Why a field that would end without an address has no place. -/
def excess (ty : ElementType) (dims : List Nat) : Fault :=
  if dims.prod < Size.bound ∧ Size.objectLimit < ty.slotCount then .capacity else .overflow

variable {program : Program} {closed : List Tree} {tree : Tree} {ty : ElementType} {shape : Shape}
  {dims : List Nat}

/-- Every size that leads to the end of a field is at most that end. -/
theorem sizes_le (hcheck : ty.check = .ok ()) (shape : Shape) :
    shape.dims.prod ≤ shape.dims.prod * ty.slotCount * wordBytes ∧
      ty.slotCount * wordBytes ≤ shape.dims.prod * ty.slotCount * wordBytes := by
  have hslots := ElementType.slotCount_pos hcheck
  have hprod : 0 < shape.dims.prod := List.prod_pos_iff_forall_pos_nat.mpr shape.dims_pos
  rw [Nat.mul_assoc]
  exact ⟨Nat.le_mul_of_pos_right _ (Nat.mul_pos hslots wordBytes_pos),
    Nat.le_mul_of_pos_left _ hprod⟩

theorem place_of_lt (hcheck : ty.check = .ok ()) (hopen : openTree program.trees = (closed, tree))
    (hlt : tree.size + shape.dims.prod * ty.slotCount * wordBytes < Size.bound) :
    ∃ field program', program.place shape ty = .ok (field, program') := by
  obtain ⟨hprod, hwidth⟩ := sizes_le hcheck shape
  have hlisted : ty.slotCount ≤ Size.objectLimit := by
    simp only [wordBytes, Size.bound, Size.objectLimit] at *
    omega
  have htotal : (shape.total : Outcome FieldError Nat) = .ok shape.dims.prod :=
    Size.product_of_lt shape.dims_pos (by omega)
  have hsize : (Size.mul shape.dims.prod (ty.slotCount * wordBytes) : Outcome FieldError Nat)
      = .ok (shape.dims.prod * ty.slotCount * wordBytes) :=
    Size.mul_eq_ok_iff.mpr ⟨by rw [Nat.mul_assoc], by rw [← Nat.mul_assoc]; omega⟩
  have hstop := (Size.add_eq_ok_iff (ε := FieldError)).mpr ⟨rfl, hlt⟩
  simp only [place, htotal, ElementType.byteSize_of_le hlisted, hsize, hopen, bind, Except.bind]
  rw [hstop]
  exact ⟨_, _, rfl⟩

theorem place_of_le (hopen : openTree program.trees = (closed, tree))
    (hle : Size.bound ≤ tree.size + shape.dims.prod * ty.slotCount * wordBytes) :
    program.place shape ty = .error (.fault (excess ty shape.dims)) := by
  rw [Nat.mul_assoc] at hle
  rcases Nat.lt_or_ge shape.dims.prod Size.bound with hprod | hprod
  · have htotal : (shape.total : Outcome FieldError Nat) = .ok shape.dims.prod :=
      Size.product_of_lt shape.dims_pos hprod
    rcases Nat.lt_or_ge Size.objectLimit ty.slotCount with hlarge | hlisted
    · rw [excess, if_pos ⟨hprod, hlarge⟩]
      simp only [place, htotal, ElementType.byteSize_of_lt hlarge, bind, Except.bind]
    · rw [excess, if_neg fun h => absurd h.2 (Nat.not_lt.mpr hlisted)]
      simp only [place, htotal, ElementType.byteSize_of_le hlisted, hopen, bind, Except.bind]
      cases hsize : (Size.mul shape.dims.prod (ty.slotCount * wordBytes) :
        Outcome FieldError Nat) with
      | error failure => rw [Size.mul_eq_error hsize]
      | ok size =>
          obtain ⟨rfl, -⟩ := Size.mul_eq_ok_iff.mp hsize
          simp only [Size.add, if_neg (Nat.not_lt.mpr hle)]
  · rw [excess, if_neg fun h => absurd h.1 (Nat.not_lt.mpr hprod), place, Shape.total,
      Size.product_of_le hprod]
    rfl

theorem declare_of_malformed {cause : ElementType.Malformed} (h : ty.check = .error cause)
    (dims : List Nat) :
    program.declare ty dims = .error (.error (.malformed (.elementType cause))) := by
  rw [declare, ElementType.validate_of_error h]
  rfl

theorem declare_of_ofDims_error {failure : Failure FieldError} (h : ty.check = .ok ())
    (hdims : Shape.ofDims dims = .error failure) : program.declare ty dims = .error failure := by
  rw [declare, ElementType.validate_of_ok h]
  show (Shape.ofDims dims >>= fun shape => program.place shape ty) = _
  rw [hdims]
  rfl

theorem declare_eq_place (h : ty.check = .ok ()) (hdims : Shape.ofDims dims = .ok shape) :
    program.declare ty dims = program.place shape ty := by
  rw [declare, ElementType.validate_of_ok h]
  show (Shape.ofDims dims >>= fun shape => program.place shape ty) = _
  rw [hdims]
  rfl

end Program

/-! ### Declarations of a run -/

namespace Ledger

variable {ledger : Ledger} {ty : ElementType} {dims : List Nat}

/-- The tree that the next field joins, by its position. -/
def nextTree (ledger : Ledger) : Nat := (Program.openTree ledger.host.program.trees).1.length

/-- Where the next field begins: behind the fields that its tree has already. -/
def nextOffset (ledger : Ledger) : Nat :=
  ((fieldsIn ledger.nextTree ledger.fields).map Field.size).sum

/-- Where a field with the given type and axes would end, if every number had an address. -/
def nextEnd (ledger : Ledger) (ty : ElementType) (dims : List Nat) : Nat :=
  ledger.nextOffset + dims.prod * ty.slotCount * wordBytes

theorem declare_of_ok {field : Field} {program : Program}
    (h : ledger.host.program.declare ty dims = .ok (field, program)) :
    ledger.outcome (.declare ty dims) = .ok (.field field) ∧
      ledger.step (.declare ty dims)
        = ⟨{ ledger.host with program := program }, ledger.fields ++ [field]⟩ := by
  have hruns : Host.runs (Command.run ledger.fields (.declare ty dims)) ledger.host
      = (.ok (.field field), { ledger.host with program := program }) := by
    simp only [Command.run, Host.declare, Host.runs_bind, Host.runs_get, Host.runs_lift, h,
      Host.runs_setProgram, Host.runs_pure]
  simp only [step, outcome, hruns, declared, and_self]

/-- A declaration that fails does nothing. -/
theorem declare_of_error {failure : Failure FieldError}
    (h : ledger.host.program.declare ty dims = .error failure) :
    ledger.outcome (.declare ty dims) = .error failure ∧
      ledger.step (.declare ty dims) = ledger := by
  have hruns : Host.runs (Command.run ledger.fields (.declare ty dims)) ledger.host
      = (.error failure, ledger.host) := by
    simp only [Command.run, Host.declare, Host.runs_bind, Host.runs_get, Host.runs_lift, h]
  simp only [step, outcome, hruns, declared, List.append_nil, and_self]

/-- A field that was declared with the given type and axes, and what it has done to its tree. -/
structure Exact (ledger : Ledger) (ty : ElementType) (dims : List Nat) (field : Field) :
    Prop where
  type : field.type = ty
  axes : field.shape.dims = dims
  tree : field.tree = ledger.nextTree
  offset : field.offset = ledger.nextOffset
  size : field.size = dims.prod * ty.slotCount * wordBytes
  total : (field.shape.total : Outcome FieldError Nat) = .ok dims.prod
  elementSize : (field.elementSize : Outcome FieldError Nat) = .ok (ty.slotCount * wordBytes)
  recorded : (ledger.step (.declare ty dims)).fields = ledger.fields ++ [field]
  grown : (ledger.step (.declare ty dims)).host.program.treeSize? field.tree
    = some (ledger.nextEnd ty dims)
  others : ∀ index, index ≠ field.tree →
    (ledger.step (.declare ty dims)).host.program.treeSize? index
      = ledger.host.program.treeSize? index

/-- How the declaration of a field with the given type and axes ends. -/
structure DeclarationEnds (ledger : Ledger) (ty : ElementType) (dims : List Nat) : Prop where
  /-- A malformed type is refused before the axes are looked at. -/
  malformed : ∀ cause, ty.check = .error cause →
    ledger.outcome (.declare ty dims) = .error (.error (.malformed (.elementType cause)))
  noAxis : ty.check = .ok () → dims = [] →
    ledger.outcome (.declare ty dims) = .error (.error (.malformed .noAxis))
  /-- The first empty axis is reported. -/
  zeroAxis : ty.check = .ok () → 0 ∈ dims →
    ledger.outcome (.declare ty dims)
      = .error (.error (.malformed (.zeroAxis (dims.findIdx (· == 0)) dims)))
  /-- A field whose end has an address is there, with all its sizes exact. -/
  placed : ty.check = .ok () → dims ≠ [] → 0 ∉ dims → ledger.nextEnd ty dims < Size.bound →
    ∃ field, ledger.outcome (.declare ty dims) = .ok (.field field) ∧ ledger.Exact ty dims field
  /-- One whose end has none is a fault, and not an error. -/
  excess : ty.check = .ok () → dims ≠ [] → 0 ∉ dims → Size.bound ≤ ledger.nextEnd ty dims →
    ledger.outcome (.declare ty dims) = .error (.fault (Program.excess ty dims))
  /-- Whatever fails changes nothing. -/
  unchanged : ∀ failure, ledger.outcome (.declare ty dims) = .error failure →
    ledger.step (.declare ty dims) = ledger

/-- The next field begins at the end of the open tree. -/
theorem nextOffset_eq (h : Arranged ledger.fields ledger.host.program.trees) {closed : List Tree}
    {tree : Tree} (hopen : Program.openTree ledger.host.program.trees = (closed, tree)) :
    ledger.nextOffset = tree.size := by
  obtain ⟨-, -, htiles, -⟩ := h.opened hopen
  have hsum := tiles_sum htiles
  rw [nextOffset, nextTree, hopen, hsum, Nat.zero_add]

/-- What a declaration that succeeds has done, in terms of the fields before it. -/
theorem exact_of_declare (h : Arranged ledger.fields ledger.host.program.trees) {field : Field}
    {program : Program} (hdeclare : ledger.host.program.declare ty dims = .ok (field, program)) :
    ledger.Exact ty dims field := by
  have hstep := (declare_of_ok hdeclare).2
  obtain ⟨closed, tree, hopen, hcheck, hlisted, htree, hoffset, hsize, hdims, htype, hend, rfl⟩ :=
    declare_eq_ok hdeclare
  obtain ⟨hprod, -⟩ := Program.sizes_le hcheck field.shape
  have hnext := nextOffset_eq h hopen
  have hnextTree : ledger.nextTree = closed.length := by rw [nextTree, hopen]
  constructor
  case type => exact htype
  case axes => exact hdims
  case tree => exact htree.trans hnextTree.symm
  case offset => exact hoffset.trans hnext.symm
  case size => exact hsize
  case total =>
    rw [hdims, ← hsize] at hprod
    rw [Shape.total, hdims]
    exact Size.product_of_lt (hdims ▸ field.shape.dims_pos) (by omega)
  case elementSize =>
    rw [Field.elementSize, htype]
    exact ElementType.byteSize_of_le hlisted
  case recorded => rw [hstep]
  case grown =>
    rw [hstep, htree, nextEnd, hnext, ← hsize]
    simp only [Program.treeSize?, List.getElem?_concat_length, Option.map_some]
    rfl
  case others =>
    intro index hne
    rw [htree] at hne
    simp only [hstep, Program.treeSize?, getElem?_concat_of_ne_length hne]
    obtain ⟨-, hsplit | ⟨hsplit, -⟩⟩ := openTree_eq hopen
    · rw [hsplit, getElem?_concat_of_ne_length hne]
    · rw [hsplit]

theorem declarationEnds_of_arranged (h : Arranged ledger.fields ledger.host.program.trees)
    (ty : ElementType) (dims : List Nat) : ledger.DeclarationEnds ty dims := by
  rcases hopen : Program.openTree ledger.host.program.trees with ⟨closed, tree⟩
  have hoffset := nextOffset_eq h hopen
  constructor
  case malformed =>
    intro cause hcheck
    exact (declare_of_error (Program.declare_of_malformed hcheck dims)).1
  case noAxis =>
    rintro hcheck rfl
    exact (declare_of_error (Program.declare_of_ofDims_error hcheck rfl)).1
  case zeroAxis =>
    intro hcheck hzero
    exact (declare_of_error
      (Program.declare_of_ofDims_error hcheck (Shape.ofDims_of_zero hzero))).1
  case placed =>
    intro hcheck hne hzero hlt
    obtain ⟨shape, hshape, rfl⟩ := Shape.ofDims_of_pos hne hzero
    rw [nextEnd, hoffset] at hlt
    obtain ⟨field, program, hplace⟩ := Program.place_of_lt hcheck hopen hlt
    have hdeclare := (Program.declare_eq_place hcheck hshape).trans hplace
    exact ⟨field, (declare_of_ok hdeclare).1, exact_of_declare h hdeclare⟩
  case excess =>
    intro hcheck hne hzero hle
    obtain ⟨shape, hshape, rfl⟩ := Shape.ofDims_of_pos hne hzero
    rw [nextEnd, hoffset] at hle
    refine (declare_of_error ?_).1
    rw [Program.declare_eq_place hcheck hshape]
    exact Program.place_of_le hopen hle
  case unchanged =>
    intro failure houtcome
    cases hdeclare : ledger.host.program.declare ty dims with
    | error failure => exact (declare_of_error hdeclare).2
    | ok result =>
        rw [(declare_of_ok hdeclare).1] at houtcome
        cases houtcome

/-- **A declaration is told by where the field would end.**  In every state that a run reaches,
and for every type and every list of axes: a malformed type, no axis and an empty axis are
refused, each with its own error; a field whose end has an address is there, behind the fields of
its tree, with every size exact and the other trees as they were; and a field whose end has no
address is a fault.  Whatever fails leaves the state as it was. -/
theorem declaration_told_by_end (limit : Option Nat) (nextId : Nat) (history : List Command)
    (ty : ElementType) (dims : List Nat) :
    ((start limit nextId).after history).DeclarationEnds ty dims := by
  have hplaced := (stays_after history (placed_start limit nextId)).placed
  exact declarationEnds_of_arranged hplaced.toArranged ty dims

/-- A field joins the tree of the one before it, or begins another tree once that one has its
storage; and of two empty axes the first is reported. -/
theorem declaration_told_by_end_second :
    let first : Command := .declare (.vector .f32 3) [5]
    let now := (start none 0).after [first]
    let later := (start none 0).after [first, .materialize]
    let ty : ElementType := .struct [("m", .matrix .f32 2 2), ("n", .scalar .i32)]
    ty.check = .ok () ∧
      (∃ field, now.outcome (.declare ty [2, 3]) = .ok (.field field) ∧ field.tree = 0 ∧
        field.offset = 60 ∧ field.size = 120 ∧
        (now.step (.declare ty [2, 3])).host.program.treeSize? 0 = some 180) ∧
      (∃ field, later.outcome (.declare ty [2, 3]) = .ok (.field field) ∧ field.tree = 1 ∧
        field.offset = 0 ∧ field.size = 120 ∧
        (later.step (.declare ty [2, 3])).host.program.treeSize? 0 = some 60) ∧
      now.outcome (.declare ty [2, 0, 0])
        = .error (.error (.malformed (.zeroAxis 1 [2, 0, 0]))) := by
  intro first now later ty
  have hcheck : ty.check = .ok () := rfl
  have hnow := declaration_told_by_end none 0 [first] ty
  have hlater := declaration_told_by_end none 0 [first, .materialize] ty
  obtain ⟨field, houtcome, hexact⟩ :=
    (hnow [2, 3]).placed hcheck (by decide) (by decide) (by decide)
  obtain ⟨field', houtcome', hexact'⟩ :=
    (hlater [2, 3]).placed hcheck (by decide) (by decide) (by decide)
  have htree : field.tree = 0 := hexact.tree
  have htree' : field'.tree = 1 := hexact'.tree
  have hgrown := hexact.grown
  have hothers := hexact'.others 0 (by rw [htree']; decide)
  rw [htree] at hgrown
  exact ⟨hcheck, ⟨field, houtcome, htree, hexact.offset, hexact.size, hgrown⟩,
    ⟨field', houtcome', htree', hexact'.offset, hexact'.size, hothers⟩,
    (hnow [2, 0, 0]).zeroAxis hcheck (by decide)⟩

/-- The product of the axes, the bytes of the field, the slots of the type and the new size of
the tree each have a declaration that they do not fit, and none of the four is refused with an
error. -/
theorem declare_of_unaddressed_end :
    let empty := start none 0
    let half := empty.after [.declare (.scalar .i32) [0x2000000000000000]]
    empty.outcome (.declare (.scalar .i32) [0x100000000, 0x100000000])
        = .error (.fault .overflow) ∧
      empty.outcome (.declare (.scalar .i32) [0x4000000000000000]) = .error (.fault .overflow) ∧
      empty.outcome (.declare (.vector .f32 0x8000000000000000) [1])
        = .error (.fault .capacity) ∧
      half.host.program.treeSize? 0 = some 0x8000000000000000 ∧
      half.outcome (.declare (.scalar .i32) [0x2000000000000000]) = .error (.fault .overflow) := by
  have hempty : ∀ ty dims, (start none 0).DeclarationEnds ty dims :=
    declarationEnds_of_arranged (placed_start none 0).toArranged
  have hhalf := declarationEnds_of_arranged (stays_after
    [.declare (.scalar .i32) [0x2000000000000000]] (placed_start none 0)).placed.toArranged
  refine ⟨(hempty _ _).excess rfl (by decide) (by decide) (by decide),
    (hempty _ _).excess rfl (by decide) (by decide) (by decide),
    (hempty _ _).excess rfl (by decide) (by decide) (by decide), by decide,
    (hhalf _ _).excess rfl (by decide) (by decide) (by decide)⟩

end Ledger

end FieldStore
