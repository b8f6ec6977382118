/-
Each tree is given storage once.

The trace of a run shows what a device has granted.  At every moment that is what the program has
on record, together with what some task has in hand and is about to put there.  An allocation is
only asked for by the task with the turn, for a tree without storage; so when it is granted, no
grant for the same tree is on record, and none is in hand either, since only a task with the turn
could hold it.

What a transfer relies on and what a closed tree keeps is part of the invariant of a pool, so the
rest of what tasks that share a program can count on is read off from it at the step in question.
-/
import FieldStore.Proofs.Tasks.Orderly

namespace FieldStore.Tasks

variable {pool next : Pool} {task : Nat} {label : Label} {index : Nat} {id : TreeId}

/-! ### What has been granted -/

/-- The tree and the storage that have been granted with this label, if any. -/
def Label.granted? : Label → Option (Nat × TreeId)
  | granted index _ id => some (index, id)
  | quiet | declared _ | rejected _ | requested _ _ | refused _ _ _ | called _ _ _
  | answered _ _ _ _ | returned _ => none

/-- The trees that have been granted storage, with that storage. -/
def grants (trace : List (Nat × Label)) : List (Nat × TreeId) :=
  trace.filterMap fun entry => entry.2.granted?

/-- The tree and the storage that a task at this point has in hand. -/
def Point.inHand? : Point → Option (Nat × TreeId)
  | recording index id _ _ => some (index, id)
  | idle | looking _ | waiting _ | closing _ | serving _ _ | asking _ _ _ _ | checking _
  | sending _ _ | moving _ _ _ => none

/-- The storage of the tree is on record, or a task has it in hand. -/
def Keeps (pool : Pool) (index : Nat) (id : TreeId) : Prop :=
  pool.program.storage? index = some id ∨
    ∃ task, (pool.point task).inHand? = some (index, id)

theorem hasTurn_of_inHand {point : Point} {entry : Nat × TreeId}
    (h : point.inHand? = some entry) : point.HasTurn := by
  cases point with
  | recording index id todo goal => trivial
  | _ => cases h

/-- Only the task with the turn can have storage in hand. -/
theorem keeps_iff_of_turn (h : Orderly pool) (hturn : (pool.point task).HasTurn) :
    Keeps pool index id ↔
      pool.program.storage? index = some id ∨ (pool.point task).inHand? = some (index, id) := by
  refine or_congr_right ⟨?_, fun hhand => ⟨task, hhand⟩⟩
  rintro ⟨other, hother⟩
  rwa [← h.turn_unique hturn (hasTurn_of_inHand hother)]

/-- Nothing is granted and nothing put on record. -/
theorem keeps_same (hstorage : ∀ index, next.program.storage? index = pool.program.storage? index)
    (hhand : ∀ task, (next.point task).inHand? = (pool.point task).inHand?)
    (hlabel : label.granted? = none) :
    Keeps next index id ↔ Keeps pool index id ∨ label.granted? = some (index, id) := by
  simp only [Keeps, hstorage, hhand, hlabel, reduceCtorEq, or_false]

/-- The task has nothing in hand, neither before nor after the step. -/
theorem inHand?_move {point : Point} (hbefore : (pool.point task).inHand? = none)
    (hafter : point.inHand? = none) (other : Nat) :
    ((pool.move task point).point other).inHand? = (pool.point other).inHand? := by
  by_cases heq : other = task
  · rw [heq, Pool.move_point_self, hbefore, hafter]
  · rw [Pool.move_point_of_ne heq]

theorem storage?_sealPending (program : Program) (index : Nat) :
    program.sealPending.storage? index = program.storage? index := by
  have hmap : program.sealPending.trees = program.trees.map Host.closePending := rfl
  rw [Program.storage?, Program.storage?, hmap, List.getElem?_map]
  cases program.trees[index]? with
  | none => rfl
  | some tree => exact Host.closePending_storage tree

/-- **What one step adds to the storage on record or in hand is what it grants.** -/
theorem keeps_step (h : Orderly pool) (hstep : Step pool task label next) :
    Keeps next index id ↔ Keeps pool index id ∨ label.granted? = some (index, id) := by
  have hstands := h.stands task
  have hnext := h.step hstep
  cases hstep with
  | declare _ hdeclare =>
      exact keeps_same (storage?_declare h.stored hdeclare).1 (fun _ => rfl) rfl
  | reject | outOfRange => exact keeps_same (fun _ => rfl) (fun _ => rfl) rfl
  | close hpoint =>
      have hnone : (pool.point task).inHand? = none := by rw [hpoint]; rfl
      exact keeps_same (storage?_sealPending _) (inHand?_move hnone rfl) rfl
  | @grant tree size todo goal storage hpoint =>
      have hturn : (pool.point task).HasTurn := by rw [hpoint]; trivial
      have hturn' : ((pool.move task (.recording tree storage todo goal)).point task).HasTurn := by
        rw [Pool.move_point_self]
        trivial
      rw [keeps_iff_of_turn hnext hturn', keeps_iff_of_turn h hturn, Pool.move_point_self, hpoint]
      simp [Point.inHand?, Label.granted?]
  | @record tree storage todo goal hpoint =>
      have hturn : (pool.point task).HasTurn := by rw [hpoint]; trivial
      have hturn' : (((pool.withProgram (pool.program.attach tree storage)).move task
          (.serving todo goal)).point task).HasTurn := by
        rw [Pool.move_point_self]
        trivial
      rw [hpoint] at hstands
      obtain ⟨size, hserves⟩ := hstands
      obtain ⟨found, hget, -⟩ := hserves.listed.tree (tree, size) List.mem_cons_self
      have hnone := hserves.listed.storage?_eq_none List.mem_cons_self
      rw [keeps_iff_of_turn hnext hturn', keeps_iff_of_turn h hturn, Pool.move_point_self, hpoint]
      show (pool.program.attach tree storage).storage? index = some id ∨ _ ↔ _
      by_cases heq : tree = index
      · subst heq
        rw [Program.storage?_attach_self hget, hnone]
        simp [Point.inHand?, Label.granted?]
      · rw [Program.storage?_attach_of_ne heq]
        simp [Point.inHand?, Label.granted?, heq]
  | beginMaterialize hpoint | beginTransfer hpoint | found hpoint | missing hpoint | enter hpoint
  | ask hpoint | refuse _ hpoint | finish hpoint | proceed hpoint | obtained hpoint
  | lacking hpoint | call hpoint | overflow hpoint | answer _ hpoint =>
      have hnone : (pool.point task).inHand? = none := by rw [hpoint]; rfl
      exact keeps_same (fun _ => rfl) (inHand?_move hnone rfl) rfl

/-! ### The account of a run -/

theorem grants_append (trace more : List (Nat × Label)) :
    grants (trace ++ more) = grants trace ++ grants more := List.filterMap_append

theorem mem_grants_singleton {entry : Nat × TreeId} :
    entry ∈ grants [(task, label)] ↔ label.granted? = some entry := by
  simp [grants]

/-- What has been granted is on record or in hand, and no tree has been granted storage twice. -/
structure Accounted (trace : List (Nat × Label)) (pool : Pool) : Prop where
  keeps_iff : ∀ index id, Keeps pool index id ↔ (index, id) ∈ grants trace
  once : ((grants trace).map Prod.fst).Nodup

theorem accounted_start : Accounted [] Pool.start := by
  refine ⟨fun index id => iff_of_false ?_ List.not_mem_nil, List.nodup_nil⟩
  rintro (hid | ⟨task, htask⟩)
  · cases hid
  · cases htask

/-- Only a task that has asked for the storage of a tree is granted it. -/
theorem asking_of_granted (hstep : Step pool task label next)
    (hgranted : label.granted? = some (index, id)) :
    ∃ size todo goal, pool.point task = .asking index size todo goal := by
  cases hstep with
  | grant _ hpoint =>
      cases hgranted
      exact ⟨_, _, _, hpoint⟩
  | _ => cases hgranted

/-- While the storage of a tree is asked for, it is neither on record nor in hand. -/
theorem not_keeps_of_asking {size : Nat} {todo : List (Nat × Nat)} {goal : Option Transfer}
    (h : Orderly pool) (hpoint : pool.point task = .asking index size todo goal) :
    ¬ Keeps pool index id := by
  have hstands := h.stands task
  have hturn : (pool.point task).HasTurn := by rw [hpoint]; trivial
  rw [hpoint] at hstands
  rw [keeps_iff_of_turn h hturn, hpoint, hstands.listed.storage?_eq_none List.mem_cons_self]
  simp [Point.inHand?]

theorem Accounted.step {trace : List (Nat × Label)} (haccount : Accounted trace pool)
    (h : Orderly pool) (hstep : Step pool task label next) :
    Accounted (trace ++ [(task, label)]) next := by
  constructor
  case keeps_iff =>
    intro index id
    rw [grants_append, List.mem_append, mem_grants_singleton,
      keeps_step h hstep, haccount.keeps_iff]
  case once =>
    rw [grants_append, List.map_append, List.nodup_append]
    refine ⟨haccount.once, ?_, ?_⟩
    · cases hgranted : label.granted? with
      | none => simp [grants, hgranted]
      | some entry => simp [grants, hgranted]
    · rintro index hbefore _ hnow rfl
      obtain ⟨⟨index, old⟩, hold, rfl⟩ := List.mem_map.mp hbefore
      obtain ⟨⟨_, id⟩, hgranted, rfl⟩ := List.mem_map.mp hnow
      obtain ⟨size, todo, goal, hpoint⟩ :=
        asking_of_granted hstep (mem_grants_singleton.mp hgranted)
      exact not_keeps_of_asking h hpoint ((haccount.keeps_iff _ old).mpr hold)

theorem Accounted.run {more : List (Nat × Label)} (hrun : Run pool more next) :
    ∀ {trace : List (Nat × Label)}, Accounted trace pool → Orderly pool →
      Accounted (trace ++ more) next := by
  induction hrun with
  | nil pool =>
      intro trace haccount _
      rwa [List.append_nil]
  | cons hstep _ ih =>
      intro trace haccount h
      rw [List.append_cons]
      exact ih (haccount.step h hstep) (h.step hstep)

/-! ### What tasks that share a program can count on -/

/-- A request that is refused is refused for its range. -/
theorem check_eq_error {request : Request} {failure : Failure FieldError}
    (h : request.check = .error failure) :
    ∃ offset length, request.field.range offset length = .error failure := by
  cases request with
  | read field offset length =>
      refine ⟨offset, length, ?_⟩
      cases hrange : field.range offset length with
      | ok range => rw [Request.check, hrange] at h; cases h
      | error cause => rw [Request.check, hrange] at h; cases h; exact hrange
  | write field words offset =>
      refine ⟨offset, some (words.length * wordBytes), ?_⟩
      cases hrange : field.range offset (some (words.length * wordBytes)) with
      | ok range => rw [Request.check, hrange] at h; cases h
      | error cause => rw [Request.check, hrange] at h; cases h; exact hrange

/-- No operation ends with the error that its tree has no storage. -/
theorem outcome_ne_notMaterialized (h : Orderly pool) (hstep : Step pool task label next)
    (tree : Nat) : label.outcome? ≠ some (.error (.error (.notMaterialized tree))) := by
  have hstands := h.stands task
  cases hstep with
  | outOfRange _ _ hcheck =>
      intro hend
      cases hend
      obtain ⟨offset, length, hrange⟩ := check_eq_error hcheck
      rcases Field.range_eq_error hrange with hfault | ⟨stop, herror⟩
      · cases hfault
      · cases herror
  | refuse failure _ => cases failure <;> nofun
  | lacking hpoint hstorage =>
      -- The materialization before has seen to the storage of the tree.
      rw [hpoint] at hstands
      obtain ⟨-, hsome⟩ := hstands
      rw [hstorage] at hsome
      cases hsome
  | overflow _ hstart =>
      intro hend
      cases hend
      cases Size.add_eq_error hstart
  | answer answer _ =>
      cases answer with
      | ok reply => nofun
      | error failure => cases failure <;> nofun
  | _ => nofun

/-- Storage is asked for with the size of the tree, and the tree is closed by then. -/
theorem tree_of_requested {size : Nat} (h : Orderly pool)
    (hstep : Step pool task (.requested index size) next) :
    ∃ tree, pool.program.trees[index]? = some tree ∧ tree.size = size ∧ tree.isSealed = true := by
  have hstands := h.stands task
  cases hstep with
  | ask hpoint =>
      rw [hpoint] at hstands
      obtain ⟨tree, hget, hsize, hsealed, -⟩ :=
        hstands.listed.tree (index, size) List.mem_cons_self
      exact ⟨tree, hget, hsize, hsealed⟩

/-- The device is called for a range of a field of the program, with the storage on record. -/
theorem owns_of_called {transfer : Transfer} {start : Nat} (h : Orderly pool)
    (hstep : Step pool task (.called transfer id start) next) :
    Owns pool.fields transfer ∧ pool.program.storage? transfer.field.tree = some id ∧
      start = transfer.field.offset + transfer.offset := by
  have hstands := h.stands task
  cases hstep with
  | call hpoint hstart =>
      rw [hpoint] at hstands
      exact ⟨hstands.1, hstands.2, (Size.add_eq_ok_iff.mp hstart).1⟩

theorem treeSize?_of_get {program : Program} {tree : Tree} {size : Nat}
    (hget : program.trees[index]? = some tree) (hsize : tree.size = size) :
    program.treeSize? index = some size := by
  rw [Program.treeSize?, hget]
  exact congrArg some hsize

/-- **Tasks that share a program materialize each tree once**, in whatever order they take their
steps, however long the device takes and whatever it refuses.  No tree is granted storage twice.
When storage is asked for, it is for the size that the tree has and will always have, for no field
joins the tree any more.  When the device is called for a transfer, it is with the storage that
was granted for the tree of the field and for a range within the field.  And no operation ends
with the error that its tree has no storage. -/
theorem materialized_once {front back : List (Nat × Label)} {before after later : Pool}
    {task : Nat} {label : Label} (hfront : Run Pool.start front before)
    (hstep : Step before task label after) (hback : Run after back later) :
    ((grants (front ++ (task, label) :: back)).map Prod.fst).Nodup ∧
      (∀ index size, label = .requested index size →
        before.program.treeSize? index = some size ∧ later.program.treeSize? index = some size ∧
          fieldsIn index later.fields = fieldsIn index before.fields) ∧
      (∀ transfer id start, label = .called transfer id start →
        transfer.field ∈ before.fields ∧ (transfer.field.tree, id) ∈ grants front ∧
          start = transfer.field.offset + transfer.offset ∧
          transfer.offset + transfer.payload.length ≤ transfer.field.size) ∧
      ∀ tree, label.outcome? ≠ some (.error (.error (.notMaterialized tree))) := by
  have h := (orderly_start.run hfront).1
  have haccount := accounted_start.run hfront orderly_start
  have honward := (h.onward hstep).trans ((h.step hstep).run hback).2
  refine ⟨?_, ?_, ?_, outcome_ne_notMaterialized h hstep⟩
  · exact (accounted_start.run (hfront.append (.cons hstep hback)) orderly_start).once
  · rintro index size rfl
    obtain ⟨tree, hget, hsize, hsealed⟩ := tree_of_requested h hstep
    obtain ⟨tree', hget', hbecomes⟩ := honward.tree index tree hget hsealed
    exact ⟨treeSize?_of_get hget hsize, treeSize?_of_get hget' (hbecomes.size.trans hsize),
      honward.closed index tree hget hsealed⟩
  · rintro transfer id start rfl
    obtain ⟨howns, hid, hstart⟩ := owns_of_called h hstep
    exact ⟨howns.mem, (haccount.keeps_iff _ id).mp (Or.inl hid), hstart, howns.fits⟩

/-- While one task waits for the storage of a tree, a second declares a further field and a third
waits for its turn.  The first is refused the storage; the third is granted it, and that of the
tree that the further field has gone to. -/
theorem materialized_once_refused :
    let line : Shape := ⟨[1], by decide, by decide⟩
    let field : Field := ⟨0, 0, 4, line, .scalar .i32⟩
    let other : Field := ⟨1, 0, 4, line, .scalar .i32⟩
    let transfer : Transfer := ⟨field, 0, .read 4⟩
    let front : List (Nat × Label) :=
      [(0, .declared field), (1, .quiet), (1, .quiet), (1, .quiet)]
    let middle : List (Nat × Label) :=
      [(2, .quiet), (2, .quiet), (0, .declared other), (1, .refused 0 4 (.fault .capacity)),
        (2, .quiet), (2, .quiet), (2, .requested 0 4), (2, .granted 0 4 ⟨7⟩), (2, .quiet),
        (2, .requested 1 4), (2, .granted 1 4 ⟨9⟩), (2, .quiet), (2, .quiet), (2, .quiet)]
    ∃ before asked ready done,
      Run Pool.start front before ∧ Step before 1 (.requested 0 4) asked ∧
        Run asked middle ready ∧ Step ready 2 (.called transfer ⟨7⟩ 0) done ∧
        ready.program.treeSize? 0 = some 4 ∧ fieldsIn 0 ready.fields = fieldsIn 0 before.fields ∧
        (0, ⟨7⟩) ∈ grants (front ++ (1, .requested 0 4) :: middle) ∧
        ((grants (front ++ (1, .requested 0 4) :: middle)).map Prod.fst).Nodup := by
  intro line field other transfer front middle
  obtain ⟨before, hfront, asked, hasked, ready, hmiddle, done, hcalled⟩ :
      ∃ before, Run Pool.start front before ∧ ∃ asked, Step before 1 (.requested 0 4) asked ∧
        ∃ ready, Run asked middle ready ∧ ∃ done, Step ready 2 (.called transfer ⟨7⟩ 0) done := by
    refine ⟨_, .cons (@Step.declare _ _ (.scalar .i32) [1] _ ⟨[⟨4, 1, false, none⟩], 0⟩ rfl rfl) <|
      .cons (.beginMaterialize rfl) <| .cons (.enter rfl rfl) <| .cons (.close rfl) (.nil _), ?_⟩
    refine ⟨_, .ask rfl, ?_⟩
    refine ⟨_, .cons (@Step.beginTransfer _ _ (.read field none none) _ rfl
        (List.mem_singleton_self _) rfl) <|
      .cons (.missing rfl rfl) <|
      .cons (@Step.declare _ _ (.scalar .i32) [1] _
        ⟨[⟨4, 1, true, none⟩, ⟨4, 1, false, none⟩], 0⟩ rfl rfl) <|
      .cons (.refuse _ rfl) <| .cons (.enter rfl rfl) <| .cons (.close rfl) <|
      .cons (.ask rfl) <| .cons (.grant _ rfl) <| .cons (.record rfl) <| .cons (.ask rfl) <|
      .cons (.grant _ rfl) <| .cons (.record rfl) <| .cons (.proceed rfl) <|
      .cons (.obtained rfl rfl) (.nil _), ?_⟩
    exact ⟨_, .call rfl rfl⟩
  obtain ⟨honce, hrequested, -, -⟩ := materialized_once hfront hasked hmiddle
  obtain ⟨-, hsize, hfields⟩ := hrequested 0 4 rfl
  have hrun := hfront.append (.cons hasked hmiddle)
  obtain ⟨-, -, hdevice, -⟩ := materialized_once hrun hcalled (.nil done)
  obtain ⟨-, hgranted, -, -⟩ := hdevice transfer ⟨7⟩ 0 rfl
  exact ⟨before, asked, ready, done, hfront, hasked, hmiddle, hcalled, hsize, hfields, hgranted,
    honce⟩

end FieldStore.Tasks
