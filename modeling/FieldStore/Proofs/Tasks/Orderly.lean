/-
What holds whenever tasks share a program.

The invariant `Orderly` says of every task what it may rely on at the point where it is.  A task
with the turn has a list of trees that it has closed and that have no storage yet; nobody else
closes a tree or puts storage on record, and a declaration leaves closed trees alone, so the list
stays true however long an allocation takes.  A task without the turn relies on nothing that the
others could undo: a field stays a field of the program, and storage on record stays there.

So a step has to be looked at from two sides.  The task that takes it must have what its next
point asks for, and the other tasks must keep what they had; for these all that matters is
`Onward`, which says in what ways a program can change.
-/
import FieldStore.Proofs.Tasks.Pool
import FieldStore.Proofs.Store.Placement

namespace FieldStore

/-! ### Storage on record -/

namespace Program

variable {program : Program} {index other : Nat} {id : TreeId} {tree : Tree}

theorem storage?_eq_some_iff :
    program.storage? index = some id ↔
      ∃ tree, program.trees[index]? = some tree ∧ tree.storage = some id :=
  Option.bind_eq_some_iff

theorem getElem?_attach_self (hget : program.trees[index]? = some tree) :
    (program.attach index id).trees[index]? = some (tree.give id) := by
  show (program.trees.modify index _)[index]? = _
  rw [List.getElem?_modify_eq, hget]
  rfl

theorem getElem?_attach_of_ne (h : index ≠ other) :
    (program.attach index id).trees[other]? = program.trees[other]? :=
  List.getElem?_modify_ne _ _ h

theorem storage?_attach_self (hget : program.trees[index]? = some tree) :
    (program.attach index id).storage? index = some id :=
  storage?_eq_some_iff.mpr ⟨tree.give id, getElem?_attach_self hget, rfl⟩

theorem storage?_attach_of_ne (h : index ≠ other) :
    (program.attach index id).storage? other = program.storage? other := by
  rw [storage?, getElem?_attach_of_ne h, storage?]

end Program

theorem StorageSealed.sealPending {program : Program} (h : StorageSealed program.trees) :
    StorageSealed program.sealPending.trees := by
  intro index tree' hget' hsome
  obtain ⟨tree, hget, rfl⟩ := Host.getElem?_sealPending hget'
  rw [Host.closePending_storage] at hsome
  exact (Host.becomes_closePending tree).isSealed (h index tree hget hsome)

theorem StorageSealed.attach {program : Program} {index : Nat} {id : TreeId} {tree : Tree}
    (h : StorageSealed program.trees) (hget : program.trees[index]? = some tree)
    (hsealed : tree.isSealed = true) : StorageSealed (program.attach index id).trees := by
  intro other found hfound hsome
  by_cases heq : index = other
  · rw [← heq, Program.getElem?_attach_self hget] at hfound
    cases hfound
    exact hsealed
  · rw [Program.getElem?_attach_of_ne heq] at hfound
    exact h other found hfound hsome

theorem becomes_attach {program : Program} {index : Nat} {id : TreeId} {tree : Tree}
    (hget : program.trees[index]? = some tree) (hnone : tree.storage = none) :
    TreesBecome program.trees (program.attach index id).trees := by
  refine ⟨List.length_modify .., ?_⟩
  intro other found hfound
  by_cases heq : index = other
  · rw [← heq] at hfound ⊢
    cases hget.symm.trans hfound
    refine ⟨tree.give id, Program.getElem?_attach_self hget, rfl, rfl, fun hsealed => hsealed, ?_⟩
    intro hsome
    rw [hnone] at hsome
    cases hsome
  · exact ⟨found, by rw [Program.getElem?_attach_of_ne heq, hfound], .refl found⟩

namespace Tasks

variable {pool next : Pool} {task : Nat} {label : Label}

/-! ### What a task relies on -/

/-- The transfer is one on a field of the program, and its range lies within the field. -/
structure Owns (fields : List Field) (transfer : Transfer) : Prop where
  mem : transfer.field ∈ fields
  fits : transfer.offset + transfer.payload.length ≤ transfer.field.size

/-- Each of the trees is listed once and with its size, is closed and has no storage. -/
structure Listed (program : Program) (todo : List (Nat × Nat)) : Prop where
  nodup : (todo.map Prod.fst).Nodup
  tree : ∀ entry ∈ todo, ∃ tree, program.trees[entry.1]? = some tree ∧ tree.size = entry.2 ∧
    tree.isSealed = true ∧ tree.storage = none

theorem Listed.storage?_eq_none {program : Program} {todo : List (Nat × Nat)} {index size : Nat}
    (h : Listed program todo) (hmem : (index, size) ∈ todo) : program.storage? index = none := by
  obtain ⟨tree, hget, -, -, hnone⟩ := h.tree (index, size) hmem
  rw [Program.storage?, hget]
  exact hnone

/-- The tree has storage or is one of those that are listed. -/
def Promised (program : Program) (todo : List (Nat × Nat)) (index : Nat) : Prop :=
  (program.storage? index).isSome = true ∨ index ∈ todo.map Prod.fst

/-- The trees still to be served, and a transfer that is to follow. -/
structure Serves (program : Program) (fields : List Field) (todo : List (Nat × Nat))
    (goal : Option Transfer) : Prop where
  listed : Listed program todo
  owns : ∀ transfer ∈ goal, Owns fields transfer
  promised : ∀ transfer ∈ goal, Promised program todo transfer.field.tree

/-- What a task relies on at a point. -/
def Stands (program : Program) (fields : List Field) : Point → Prop
  | .idle | .moving _ _ _ => True
  | .looking transfer => Owns fields transfer
  | .waiting goal | .closing goal => ∀ transfer ∈ goal, Owns fields transfer
  | .serving todo goal => Serves program fields todo goal
  | .asking index size todo goal => Serves program fields ((index, size) :: todo) goal
  | .recording index _ todo goal => ∃ size, Serves program fields ((index, size) :: todo) goal
  | .checking transfer =>
      Owns fields transfer ∧ (program.storage? transfer.field.tree).isSome = true
  | .sending transfer id => Owns fields transfer ∧ program.storage? transfer.field.tree = some id

/-- **The invariant.**  The fields are arranged in the trees, a tree with storage is closed, only
the holder of the turn is at a point that asks for it, and every task has what it relies on. -/
structure Orderly (pool : Pool) : Prop where
  arranged : Arranged pool.fields pool.program.trees
  stored : StorageSealed pool.program.trees
  turn : ∀ task, (pool.point task).HasTurn → pool.holder = some task
  stands : ∀ task, Stands pool.program pool.fields (pool.point task)

theorem orderly_start : Orderly Pool.start :=
  ⟨arranged_nil, fun _ _ hget => by simp [Pool.start, Program.empty] at hget,
    fun _ hturn => hturn.elim, fun _ => trivial⟩

/-! ### How a program can change -/

/-- Fields are only added, and a closed tree gets no further ones.  It keeps its size, and its
storage once it has some. -/
structure Onward (pool next : Pool) : Prop where
  fields : ∀ field ∈ pool.fields, field ∈ next.fields
  tree : ∀ (index : Nat) (tree : Tree), pool.program.trees[index]? = some tree →
    tree.isSealed = true → ∃ tree', next.program.trees[index]? = some tree' ∧ tree.Becomes tree'
  closed : ∀ (index : Nat) (tree : Tree), pool.program.trees[index]? = some tree →
    tree.isSealed = true → fieldsIn index next.fields = fieldsIn index pool.fields

namespace Onward

theorem of_become (hfields : next.fields = pool.fields)
    (hbecome : TreesBecome pool.program.trees next.program.trees) : Onward pool next := by
  refine ⟨?_, ?_, ?_⟩
  · rw [hfields]
    exact fun _ hmem => hmem
  · exact fun index tree hget _ => hbecome.becomes index tree hget
  · rw [hfields]
    exact fun _ _ _ _ => rfl

theorem of_eq (hfields : next.fields = pool.fields)
    (htrees : next.program.trees = pool.program.trees) : Onward pool next :=
  of_become hfields (htrees ▸ .refl _)

theorem of_declare {ty : ElementType} {dims : List Nat} {field : Field} {program : Program}
    (hdeclare : pool.program.declare ty dims = .ok (field, program)) :
    Onward pool (pool.declared field program) := by
  refine ⟨fun _ hmem => List.mem_append_left _ hmem, ?_, ?_⟩
  · intro index tree hget hsealed
    exact ⟨tree, (getElem?_declare_of_sealed hdeclare hsealed).mpr hget, .refl tree⟩
  · intro index tree hget hsealed
    exact fieldsIn_concat_of_ne (tree_ne_of_sealed hdeclare hget hsealed)

theorem trans {last : Pool} (h : Onward pool next) (h' : Onward next last) : Onward pool last := by
  refine ⟨fun field hmem => h'.fields field (h.fields field hmem), ?_, ?_⟩
  · intro index tree hget hsealed
    obtain ⟨tree', hget', hbecomes⟩ := h.tree index tree hget hsealed
    obtain ⟨tree'', hget'', hbecomes'⟩ := h'.tree index tree' hget' (hbecomes.isSealed hsealed)
    exact ⟨tree'', hget'', hbecomes.trans hbecomes'⟩
  · intro index tree hget hsealed
    obtain ⟨tree', hget', hbecomes⟩ := h.tree index tree hget hsealed
    rw [h'.closed index tree' hget' (hbecomes.isSealed hsealed), h.closed index tree hget hsealed]

/-- Storage on record stays there. -/
theorem storage {index : Nat} {id : TreeId} (h : Onward pool next)
    (hstored : StorageSealed pool.program.trees) (hid : pool.program.storage? index = some id) :
    next.program.storage? index = some id := by
  obtain ⟨tree, hget, hstorage⟩ := Program.storage?_eq_some_iff.mp hid
  have hsome : tree.storage.isSome = true := by rw [hstorage]; rfl
  obtain ⟨tree', hget', hbecomes⟩ := h.tree index tree hget (hstored index tree hget hsome)
  refine Program.storage?_eq_some_iff.mpr ⟨tree', hget', ?_⟩
  rw [hbecomes.kept hsome, hstorage]

end Onward

theorem Owns.onward {transfer : Transfer} (h : Owns pool.fields transfer)
    (honward : Onward pool next) : Owns next.fields transfer :=
  ⟨honward.fields _ h.mem, h.fits⟩

/-- A task without the turn keeps what it relies on. -/
theorem Stands.onward {point : Point} (h : Stands pool.program pool.fields point)
    (hturn : ¬ point.HasTurn) (honward : Onward pool next)
    (hstored : StorageSealed pool.program.trees) : Stands next.program next.fields point := by
  cases point with
  | idle => trivial
  | looking transfer => exact Owns.onward h honward
  | waiting goal => exact fun transfer hmem => (h transfer hmem).onward honward
  | closing goal => exact absurd trivial hturn
  | serving todo goal => exact absurd trivial hturn
  | asking index size todo goal => exact absurd trivial hturn
  | recording index id todo goal => exact absurd trivial hturn
  | checking transfer =>
      obtain ⟨howns, hsome⟩ := h
      obtain ⟨id, hid⟩ := Option.isSome_iff_exists.mp hsome
      exact ⟨howns.onward honward, by rw [honward.storage hstored hid]; rfl⟩
  | sending transfer id =>
      obtain ⟨howns, hid⟩ := h
      exact ⟨howns.onward honward, honward.storage hstored hid⟩
  | moving transfer id start => trivial

/-! ### Steps of the task with the turn -/

/-- The trees that want storage are closed and listed, and a tree that is not listed has some. -/
theorem serves_pending {goal : Option Transfer} (h : Orderly pool)
    (howns : ∀ transfer ∈ goal, Owns pool.fields transfer) :
    Serves pool.program.sealPending pool.fields pool.program.pending goal := by
  refine ⟨⟨Program.nodup_pending _, ?_⟩, howns, ?_⟩
  · rintro ⟨index, size⟩ hmem
    obtain ⟨tree, hget, hpending, hsize⟩ := Program.mem_pending_iff.mp hmem
    obtain ⟨tree', hget', hbecomes⟩ :=
      (Host.becomes_sealPending pool.program).becomes index tree hget
    obtain ⟨found, hfound, rfl⟩ := Host.getElem?_sealPending hget'
    cases hget.symm.trans hfound
    refine ⟨Host.closePending tree, hget', hbecomes.size.trans hsize, ?_, ?_⟩
    · rw [Host.closePending, if_pos hpending]
      rfl
    · rw [Host.closePending_storage]
      exact (isPending_iff.mp hpending).1
  · intro transfer hmem
    have hlt := h.arranged.tree_lt _ (howns transfer hmem).mem
    obtain ⟨tree, hget⟩ : ∃ tree, pool.program.trees[transfer.field.tree]? = some tree :=
      ⟨_, List.getElem?_eq_getElem hlt⟩
    cases hstorage : tree.storage with
    | none =>
        have hpending := isPending_iff.mpr ⟨hstorage, (h.arranged.occupied _ tree hget).2⟩
        have hlisted := Program.mem_pending_iff.mpr ⟨tree, hget, hpending, rfl⟩
        exact Or.inr (List.mem_map_of_mem hlisted)
    | some id =>
        obtain ⟨tree', hget', hbecomes⟩ :=
          (Host.becomes_sealPending pool.program).becomes _ tree hget
        have hkept := hbecomes.kept (by rw [hstorage]; rfl)
        have hid := Program.storage?_eq_some_iff.mpr ⟨tree', hget', by rw [hkept, hstorage]⟩
        exact Or.inl (by rw [hid]; rfl)

/-- Once the first tree has storage, the others are still to be served. -/
theorem Serves.attach {program : Program} {fields : List Field} {index size : Nat}
    {todo : List (Nat × Nat)} {goal : Option Transfer} (id : TreeId)
    (h : Serves program fields ((index, size) :: todo) goal) :
    Serves (program.attach index id) fields todo goal := by
  obtain ⟨hfirst, hnodup⟩ := List.nodup_cons.mp h.listed.nodup
  refine ⟨⟨hnodup, ?_⟩, h.owns, ?_⟩
  · intro entry hmem
    have hne : index ≠ entry.1 := by
      intro heq
      exact hfirst (List.mem_map.mpr ⟨entry, hmem, heq.symm⟩)
    rw [Program.getElem?_attach_of_ne hne]
    exact h.listed.tree entry (List.mem_cons_of_mem _ hmem)
  · intro transfer hmem
    by_cases heq : index = transfer.field.tree
    · obtain ⟨tree, hget, -⟩ := h.listed.tree (index, size) List.mem_cons_self
      rw [← heq]
      exact Or.inl (by rw [Program.storage?_attach_self hget]; rfl)
    · rcases h.promised transfer hmem with hsome | hlisted
      · exact Or.inl (by rwa [Program.storage?_attach_of_ne heq])
      · rcases List.mem_cons.mp hlisted with hc | hlisted
        · exact absurd hc.symm heq
        · exact Or.inr hlisted

/-- A declaration by another task does not disturb the task with the turn. -/
theorem Serves.declare {todo : List (Nat × Nat)} {goal : Option Transfer} {ty : ElementType}
    {dims : List Nat} {field : Field} {program : Program}
    (h : Serves pool.program pool.fields todo goal) (hstored : StorageSealed pool.program.trees)
    (hdeclare : pool.program.declare ty dims = .ok (field, program)) :
    Serves program (pool.fields ++ [field]) todo goal := by
  refine ⟨⟨h.listed.nodup, ?_⟩, ?_, ?_⟩
  · intro entry hmem
    obtain ⟨tree, hget, hsize, hsealed, hnone⟩ := h.listed.tree entry hmem
    exact ⟨tree, (getElem?_declare_of_sealed hdeclare hsealed).mpr hget, hsize, hsealed, hnone⟩
  · exact fun transfer hmem => (h.owns transfer hmem).onward (.of_declare hdeclare)
  · intro transfer hmem
    rw [Promised, (storage?_declare hstored hdeclare).1]
    exact h.promised transfer hmem

/-! ### The invariant is kept -/

/-- Of two tasks at points that ask for the turn one is the other. -/
theorem Orderly.turn_unique {other : Nat} (h : Orderly pool) (hturn : (pool.point task).HasTurn)
    (hother : (pool.point other).HasTurn) : other = task :=
  Option.some.inj ((h.turn other hother).symm.trans (h.turn task hturn))

/-- A step to another point.  The other tasks need not be looked at again if the program goes
onward without them and none of them has the turn, or nothing changes for them at all. -/
theorem Orderly.advance {program : Program} {holder : Option Nat} {point : Point} (h : Orderly pool)
    (hbecome : TreesBecome pool.program.trees program.trees) (hstored : StorageSealed program.trees)
    (hothers : ∀ other, other ≠ task → (pool.point other).HasTurn →
      program = pool.program ∧ holder = pool.holder)
    (hturn : point.HasTurn → holder = some task) (hstands : Stands program pool.fields point) :
    Orderly (((pool.withProgram program).withHolder holder).move task point) := by
  refine ⟨h.arranged.become hbecome, hstored, ?_, ?_⟩
  · intro other hhas
    by_cases heq : other = task
    · subst heq
      rw [Pool.move_point_self] at hhas
      exact hturn hhas
    · rw [Pool.move_point_of_ne heq] at hhas
      obtain ⟨-, hholder⟩ := hothers other heq hhas
      exact hholder.trans (h.turn other hhas)
  · intro other
    by_cases heq : other = task
    · subst heq
      rw [Pool.move_point_self]
      exact hstands
    · rw [Pool.move_point_of_ne heq]
      by_cases hhas : (pool.point other).HasTurn
      · obtain ⟨rfl, -⟩ := hothers other heq hhas
        exact h.stands other
      · exact (h.stands other).onward hhas (.of_become rfl hbecome) h.stored

/-- A step that changes nothing but the point of the task. -/
theorem Orderly.move {point : Point} (h : Orderly pool)
    (hturn : point.HasTurn → (pool.point task).HasTurn)
    (hstands : Stands pool.program pool.fields point) : Orderly (pool.move task point) :=
  h.advance (.refl _) h.stored (fun _ _ _ => ⟨rfl, rfl⟩) (fun hhas => h.turn task (hturn hhas))
    hstands

/-- A step with which the task gives up the turn. -/
theorem Orderly.leave {point : Point} (h : Orderly pool) (hturn : (pool.point task).HasTurn)
    (hwithout : ¬ point.HasTurn) (hstands : Stands pool.program pool.fields point) :
    Orderly ((pool.withHolder none).move task point) :=
  h.advance (.refl _) h.stored
    (fun _ hne hother => absurd (h.turn_unique hturn hother) hne) (fun hhas => absurd hhas hwithout)
    hstands

/-- A step with which the task, having the turn, changes the program. -/
theorem Orderly.change {program : Program} {point : Point} (h : Orderly pool)
    (hturn : (pool.point task).HasTurn) (hbecome : TreesBecome pool.program.trees program.trees)
    (hstored : StorageSealed program.trees) (hstands : Stands program pool.fields point) :
    Orderly ((pool.withProgram program).move task point) :=
  h.advance hbecome hstored
    (fun _ hne hother => absurd (h.turn_unique hturn hother) hne) (fun _ => h.turn task hturn)
    hstands

theorem Orderly.declare {ty : ElementType} {dims : List Nat} {field : Field} {program : Program}
    (h : Orderly pool) (hdeclare : pool.program.declare ty dims = .ok (field, program)) :
    Orderly (pool.declared field program) := by
  refine ⟨h.arranged.declare hdeclare, h.stored.declare hdeclare, h.turn, ?_⟩
  intro task
  have hstands := h.stands task
  show Stands program (pool.fields ++ [field]) (pool.point task)
  generalize pool.point task = point at hstands ⊢
  by_cases hturn : point.HasTurn
  · cases point with
    | closing goal =>
        exact fun transfer hmem => (hstands transfer hmem).onward (.of_declare hdeclare)
    | serving todo goal => exact Serves.declare hstands h.stored hdeclare
    | asking index size todo goal => exact Serves.declare hstands h.stored hdeclare
    | recording index id todo goal =>
        obtain ⟨size, hserves⟩ := hstands
        exact ⟨size, hserves.declare h.stored hdeclare⟩
    | _ => exact hturn.elim
  · exact hstands.onward hturn (.of_declare hdeclare) h.stored

/-- A request that has been checked is a transfer within its field. -/
theorem owns_of_check {fields : List Field} {request : Request} {transfer : Transfer}
    (hown : request.field ∈ fields) (hcheck : request.check = .ok transfer) :
    Owns fields transfer := by
  cases request with
  | read field offset length =>
      rw [Request.check, bind_eq_ok] at hcheck
      obtain ⟨⟨start, count⟩, hrange, hcheck⟩ := hcheck
      cases hcheck
      exact ⟨hown, (Field.range_eq_ok hrange).2.2⟩
  | write field words offset =>
      rw [Request.check, bind_eq_ok] at hcheck
      obtain ⟨⟨start, count⟩, hrange, hcheck⟩ := hcheck
      cases hcheck
      obtain ⟨-, rfl, hfits⟩ := Field.range_eq_ok hrange
      exact ⟨hown, hfits⟩

/-- **Every step of every task keeps the invariant.** -/
theorem Orderly.step (h : Orderly pool) (hstep : Step pool task label next) : Orderly next := by
  have hstands := h.stands task
  cases hstep with
  | declare hpoint hdeclare => exact h.declare hdeclare
  | reject => exact h
  | outOfRange => exact h
  | beginMaterialize hpoint => exact h.move False.elim fun _ hmem => by cases hmem
  | beginTransfer hpoint hown hcheck => exact h.move False.elim (owns_of_check hown hcheck)
  | found hpoint hstorage =>
      rw [hpoint] at hstands
      exact h.move False.elim ⟨hstands, hstorage⟩
  | missing hpoint hstorage =>
      rw [hpoint] at hstands
      refine h.move False.elim fun transfer hmem => ?_
      cases hmem
      exact hstands
  | enter hpoint hfree =>
      rw [hpoint] at hstands
      refine h.advance (.refl _) h.stored (fun other _ hother => ?_) (fun _ => rfl) hstands
      -- Nobody has the turn, so nobody is at a point that asks for it.
      have hholder := h.turn other hother
      rw [hfree] at hholder
      cases hholder
  | close hpoint =>
      have hturn : (pool.point task).HasTurn := by rw [hpoint]; trivial
      rw [hpoint] at hstands
      exact h.change hturn (Host.becomes_sealPending _) h.stored.sealPending
        (serves_pending h hstands)
  | ask hpoint =>
      rw [hpoint] at hstands
      exact h.move (fun _ => by rw [hpoint]; trivial) hstands
  | @grant _ size _ _ id hpoint =>
      rw [hpoint] at hstands
      exact h.move (fun _ => by rw [hpoint]; trivial) ⟨size, hstands⟩
  | refuse failure hpoint =>
      have hturn : (pool.point task).HasTurn := by rw [hpoint]; trivial
      exact h.leave hturn id trivial
  | @record index id _ _ hpoint =>
      have hturn : (pool.point task).HasTurn := by rw [hpoint]; trivial
      rw [hpoint] at hstands
      obtain ⟨size, hserves⟩ := hstands
      obtain ⟨tree, hget, -, hsealed, hnone⟩ := hserves.listed.tree (index, size) List.mem_cons_self
      exact h.change hturn (becomes_attach hget hnone) (h.stored.attach hget hsealed)
        (hserves.attach id)
  | finish hpoint =>
      have hturn : (pool.point task).HasTurn := by rw [hpoint]; trivial
      exact h.leave hturn id trivial
  | proceed hpoint =>
      have hturn : (pool.point task).HasTurn := by rw [hpoint]; trivial
      rw [hpoint] at hstands
      refine h.leave hturn id ⟨hstands.owns _ rfl, ?_⟩
      -- Nothing is left to be served, so the tree has storage.
      rcases hstands.promised _ rfl with hsome | hlisted
      · exact hsome
      · cases hlisted
  | obtained hpoint hstorage =>
      rw [hpoint] at hstands
      exact h.move False.elim ⟨hstands.1, hstorage⟩
  | lacking hpoint hstorage => exact h.move False.elim trivial
  | call hpoint hstart => exact h.move False.elim trivial
  | overflow hpoint hstart => exact h.move False.elim trivial
  | answer answer hpoint => exact h.move False.elim trivial

/-- The program goes onward with every step. -/
theorem Orderly.onward (h : Orderly pool) (hstep : Step pool task label next) :
    Onward pool next := by
  have hstands := h.stands task
  cases hstep with
  | declare hpoint hdeclare => exact .of_declare hdeclare
  | close hpoint => exact .of_become rfl (Host.becomes_sealPending _)
  | @record index id _ _ hpoint =>
      rw [hpoint] at hstands
      obtain ⟨size, hserves⟩ := hstands
      obtain ⟨tree, hget, -, -, hnone⟩ := hserves.listed.tree (index, size) List.mem_cons_self
      exact .of_become rfl (becomes_attach hget hnone)
  | _ => exact .of_eq rfl rfl

/-- **Every run keeps the invariant**, and the program goes onward with it. -/
theorem Orderly.run {trace : List (Nat × Label)} (h : Orderly pool) (hrun : Run pool trace next) :
    Orderly next ∧ Onward pool next := by
  induction hrun with
  | nil pool => exact ⟨h, .of_eq rfl rfl⟩
  | cons hstep _ ih =>
      obtain ⟨horderly, honward⟩ := ih (h.step hstep)
      exact ⟨horderly, (h.onward hstep).trans honward⟩

end Tasks

end FieldStore
