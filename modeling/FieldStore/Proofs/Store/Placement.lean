/-
The placement holds in every state that a run reaches.

A declaration lengthens the open tree, which has no storage, or starts another one; every other
command lets the host grow or overwrites part of a region.  So one step keeps the placement and
leaves alone every tree that has storage, whether the step succeeds or not, and by induction so
does a run.
-/
import FieldStore.Proofs.Store.Command

namespace FieldStore

/-! ### Declaration -/

section Declare

variable {fields : List Field} {host : Host}

/-- A tree with storage is closed. -/
def StorageSealed (trees : List Tree) : Prop :=
  ∀ (index : Nat) (tree : Tree), trees[index]? = some tree →
    tree.storage.isSome = true → tree.isSealed = true

/-- The open tree is the last one or a new one, and it is not closed. -/
theorem openTree_eq {trees closed : List Tree} {tree : Tree}
    (hopen : Program.openTree trees = (closed, tree)) :
    tree.isSealed = false ∧
      (trees = closed ++ [tree] ∨ trees = closed ∧ tree = Tree.empty) := by
  rcases openTree_cases trees with ⟨front, last, hsplit, hunsealed, heq⟩ | ⟨-, heq⟩
  · cases hopen.symm.trans heq
    exact ⟨hunsealed, Or.inl hsplit⟩
  · cases hopen.symm.trans heq
    exact ⟨rfl, Or.inr ⟨rfl, rfl⟩⟩

theorem getElem?_concat_of_ne {closed : List Tree} {last tree : Tree} {index : Nat}
    (h : last ≠ tree) : (closed ++ [last])[index]? = some tree ↔ closed[index]? = some tree := by
  rcases Nat.lt_or_ge index closed.length with hlt | hge
  · rw [List.getElem?_append_left hlt]
  · rw [List.getElem?_append_right hge, List.getElem?_eq_none hge, List.getElem?_singleton]
    simp [h]

/-- A declaration leaves the closed trees as they are and makes no new ones. -/
theorem getElem?_declare_of_sealed {program program' : Program} {ty : ElementType}
    {dims : List Nat} {field : Field} (hdeclare : program.declare ty dims = .ok (field, program'))
    {index : Nat} {tree : Tree} (hsealed : tree.isSealed = true) :
    program'.trees[index]? = some tree ↔ program.trees[index]? = some tree := by
  obtain ⟨closed, last, hopen, -, -, -, -, -, -, -, -, rfl⟩ := declare_eq_ok hdeclare
  obtain ⟨hunsealed, hsplit⟩ := openTree_eq hopen
  have hne : ∀ other : Tree, other.isSealed = false → other ≠ tree := by
    rintro other hother rfl
    exact Bool.noConfusion (hother.symm.trans hsealed)
  rw [getElem?_concat_of_ne (hne (last.lengthen field.size) hunsealed)]
  rcases hsplit with hsplit | ⟨hsplit, -⟩
  · rw [hsplit, getElem?_concat_of_ne (hne last hunsealed)]
  · rw [hsplit]

/-- The field that is declared is in none of the closed trees. -/
theorem tree_ne_of_sealed {program program' : Program} {ty : ElementType} {dims : List Nat}
    {field : Field} (hdeclare : program.declare ty dims = .ok (field, program')) {index : Nat}
    {tree : Tree} (hget : program.trees[index]? = some tree) (hsealed : tree.isSealed = true) :
    field.tree ≠ index := by
  have hget' := (getElem?_declare_of_sealed hdeclare hsealed).mpr hget
  obtain ⟨closed, last, hopen, -, -, htree, -, -, -, -, -, rfl⟩ := declare_eq_ok hdeclare
  obtain ⟨hunsealed, -⟩ := openTree_eq hopen
  rintro rfl
  rw [htree, List.getElem?_concat_length] at hget'
  cases hget'
  exact Bool.noConfusion (hunsealed.symm.trans hsealed)

/-- The open tree has no storage. -/
theorem StorageSealed.storage_open {trees closed : List Tree} {tree : Tree}
    (h : StorageSealed trees) (hopen : Program.openTree trees = (closed, tree)) :
    tree.storage = none := by
  obtain ⟨hunsealed, hsplit | ⟨-, rfl⟩⟩ := openTree_eq hopen
  · have hlast : trees[closed.length]? = some tree := by simp [hsplit]
    cases hstorage : tree.storage with
    | none => rfl
    | some id =>
        have hsealed := h _ tree hlast (by rw [hstorage]; rfl)
        exact Bool.noConfusion (hunsealed.symm.trans hsealed)
  · rfl

theorem StorageSealed.declare {program program' : Program} {ty : ElementType} {dims : List Nat}
    {field : Field} (h : StorageSealed program.trees)
    (hdeclare : program.declare ty dims = .ok (field, program')) :
    StorageSealed program'.trees := by
  obtain ⟨closed, last, hopen, -, -, -, -, -, -, -, -, rfl⟩ := declare_eq_ok hdeclare
  have hnone := h.storage_open hopen
  obtain ⟨-, hsplit⟩ := openTree_eq hopen
  intro index tree hget hsome
  have hne : ∀ other : Tree, other.storage = none → other ≠ tree := by
    rintro other hother rfl
    rw [hother] at hsome
    cases hsome
  rw [getElem?_concat_of_ne (hne (last.lengthen field.size) hnone)] at hget
  refine h index tree ?_ hsome
  rcases hsplit with hsplit | ⟨hsplit, -⟩
  · rw [hsplit]
    exact (getElem?_concat_of_ne (hne last hnone)).mpr hget
  · rwa [hsplit]

/-- A declaration leaves the trees with storage as they are and makes no new ones. -/
theorem getElem?_declare {program program' : Program} {ty : ElementType} {dims : List Nat}
    {field : Field} (h : StorageSealed program.trees)
    (hdeclare : program.declare ty dims = .ok (field, program')) {index : Nat} {tree : Tree}
    (hsome : tree.storage.isSome = true) :
    program'.trees[index]? = some tree ↔ program.trees[index]? = some tree := by
  constructor
  · intro hget
    have hsealed := h.declare hdeclare index tree hget hsome
    exact (getElem?_declare_of_sealed hdeclare hsealed).mp hget
  · intro hget
    exact (getElem?_declare_of_sealed hdeclare (h index tree hget hsome)).mpr hget

/-- A declaration gives storage to no tree and takes it from none. -/
theorem storage?_declare {program program' : Program} {ty : ElementType} {dims : List Nat}
    {field : Field} (h : StorageSealed program.trees)
    (hdeclare : program.declare ty dims = .ok (field, program')) :
    (∀ index, program'.storage? index = program.storage? index) ∧
      program'.storage? field.tree = none := by
  -- Storage on one side is storage on the other.
  have hiff : ∀ index id,
      program'.storage? index = some id ↔ program.storage? index = some id := by
    intro index id
    simp only [Program.storage?, Option.bind_eq_some_iff]
    constructor
    · intro hstorage
      obtain ⟨tree, hget, hid⟩ := hstorage
      exact ⟨tree, (getElem?_declare h hdeclare (by rw [hid]; rfl)).mp hget, hid⟩
    · intro hstorage
      obtain ⟨tree, hget, hid⟩ := hstorage
      exact ⟨tree, (getElem?_declare h hdeclare (by rw [hid]; rfl)).mpr hget, hid⟩
  refine ⟨fun index => Option.ext fun id => hiff index id, ?_⟩
  obtain ⟨closed, tree, hopen, -, -, htree, -, -, -, -, -, rfl⟩ := declare_eq_ok hdeclare
  have hnone := h.storage_open hopen
  rw [htree, Program.storage?, List.getElem?_concat_length, Option.bind_some]
  exact hnone

theorem placed_declare {program' : Program} {ty : ElementType} {dims : List Nat} {field : Field}
    (h : Placed fields host) (hdeclare : host.program.declare ty dims = .ok (field, program')) :
    Placed (fields ++ [field]) { host with program := program' } ∧
      Lasting host { host with program := program' } := by
  refine ⟨⟨h.toArranged.declare hdeclare, h.toBacked.carry ?_ (fun _ _ hsize => hsize) h.fresh⟩, ?_⟩
  · intro index tree hsome
    exact getElem?_declare h.sealed_of_storage hdeclare hsome
  · intro index tree hget hsome
    exact (getElem?_declare h.sealed_of_storage hdeclare hsome).mpr hget

end Declare

/-! ### Steps and runs -/

theorem Stays.trans {fields fields' : List Field} {host host' host'' : Host}
    (h : Stays fields host host') (h' : Stays fields' host' host'') : Stays fields' host host'' :=
  ⟨h'.placed, h.lasting.trans h'.lasting⟩

theorem Effect.stays {fields : List Field} {host host' : Host} {command : Command}
    {outcome : Outcome FieldError Reply} (heffect : Effect fields host command outcome host')
    (h : Placed fields host) : Stays (fields ++ Ledger.declared outcome) host host' := by
  have hdone : fields ++ Ledger.declared (.ok .done) = fields := List.append_nil fields
  cases heffect with
  | declared hdeclare =>
      obtain ⟨hplaced, hlasting⟩ := placed_declare h hdeclare
      exact ⟨hplaced, hlasting⟩
  | wrote _ _ hkept hwrites =>
      rw [hdone]
      exact hkept.stays.trans (Field.stays_of_writes hkept.placed hwrites)
  | wroteForeign hkept hwrites =>
      rw [hdone]
      exact hkept.stays.trans (Field.stays_of_writes hkept.placed hwrites)
  | wroteRegion hbytes hrange =>
      rw [hdone]
      exact stays_written h hbytes hrange
  | kept hkept hnone _ =>
      rw [hnone, List.append_nil]
      exact hkept.stays

namespace Ledger

theorem placed_start (limit : Option Nat) (nextId : Nat) :
    Placed (start limit nextId).fields (start limit nextId).host :=
  ⟨arranged_nil, backed_empty limit nextId⟩

/-- One step keeps the placement and leaves alone what has storage. -/
theorem stays_step {ledger : Ledger} (command : Command) (h : Placed ledger.fields ledger.host) :
    Stays (ledger.step command).fields ledger.host (ledger.step command).host :=
  (effect_of_run command h).stays h

theorem stays_after :
    ∀ (commands : List Command) {ledger : Ledger}, Placed ledger.fields ledger.host →
      Stays (ledger.after commands).fields ledger.host (ledger.after commands).host := by
  intro commands
  induction commands with
  | nil => intro ledger h; exact ⟨h, fun _ _ hget _ => hget⟩
  | cons command rest ih =>
      intro ledger h
      have hstep := stays_step command h
      exact hstep.trans (ih hstep.placed)

/-- **Every state that a run reaches is placed, and what has storage keeps it.**  The run may
declare, materialize, use fields of this program and of others and go to the memory directly, in
any order, and any of its commands may fail.  A tree with storage is the same at any later point
of the run, and its storage is known to the memory and of its size there too. -/
theorem placed_after (limit : Option Nat) (nextId : Nat) (history more : List Command) :
    let now := (start limit nextId).after history
    let later := now.after more
    Placed now.fields now.host ∧
      ∀ (index : Nat) (tree : Tree) (id : TreeId),
        now.host.program.trees[index]? = some tree → tree.storage = some id →
          later.host.program.trees[index]? = some tree ∧
            later.host.memory.size? id = some tree.size := by
  intro now later
  have hnow := stays_after history (placed_start limit nextId)
  have hlater := stays_after more hnow.placed
  refine ⟨hnow.placed, ?_⟩
  intro index tree id hget hid
  have hget' := hlater.lasting index tree hget (by rw [hid]; rfl)
  exact ⟨hget', hlater.placed.known index tree id hget' hid⟩

end Ledger

end FieldStore
