/-
Which requests a program can still serve.

In every state that a run reaches, a request that is right for its field succeeds if and only if
the storage it wants is to be had, so nothing else in the history matters.  Two consequences are
easily missed.  A tree that is refused stays closed and is asked for again by every
materialization, so from then on no later tree is served either, however small it is.  And a field
whose tree has storage is read in part whatever is refused elsewhere, but not by `toArray`, which
materializes first.
-/
import FieldStore.Proofs.Store.Access

namespace FieldStore.Ledger

variable {ledger : Ledger} {number : Nat} {field : Field}

/-! ### Requests on the fields of a program -/

theorem query_succeeds_iff (request : Query) (h : Placed ledger.fields ledger.host)
    (hfield : ledger.fields[number]? = some field) (hvalid : request.Valid field) :
    (∃ reply, ledger.outcome (.query number request) = .ok reply)
      ↔ request.Served ledger.host field := by
  have hends := ends_query_served h (List.mem_of_getElem? hfield) hvalid
  simp only [outcome, Command.run, hfield]
  exact Host.succeeds_iff (Host.ends_mono hends (fun _ _ => id) fun _ _ hend => hend.1)

theorem update_succeeds_of_payload {change : Update} {words : List Word} {offset : Option Nat}
    (h : Placed ledger.fields ledger.host) (hfield : ledger.fields[number]? = some field)
    (hpayload : change.payload field = .ok (words, offset))
    (hcovers : field.Covers offset (some (words.length * wordBytes))) :
    (∃ reply, ledger.outcome (.update number change) = .ok reply)
      ↔ ledger.host.Serves field.tree := by
  have hends := Field.ends_write_serves h (List.mem_of_getElem? hfield) hcovers
  simp only [outcome, Command.run, hfield]
  refine Host.succeeds_iff ?_
  rw [Host.ends_bind, Update.run_eq_write hpayload]
  exact Host.ends_mono hends (fun _ _ => id) fun _ _ hend => hend.1

theorem update_succeeds_iff (change : Update) (h : Placed ledger.fields ledger.host)
    (hfield : ledger.fields[number]? = some field) (hvalid : change.Valid field) :
    (∃ reply, ledger.outcome (.update number change) = .ok reply)
      ↔ ledger.host.Serves field.tree := by
  obtain ⟨words, offset, hpayload, hcovers⟩ :=
    Update.payload_of_valid h.toArranged (List.mem_of_getElem? hfield) hvalid
  exact update_succeeds_of_payload h hfield hpayload hcovers

/-- Whatever an update writes, it succeeds exactly if its words are there and cover a range of the
field, and the tree is served. -/
theorem update_succeeds_iff_covers (change : Update) (h : Placed ledger.fields ledger.host)
    (hfield : ledger.fields[number]? = some field) :
    (∃ reply, ledger.outcome (.update number change) = .ok reply) ↔
      (∃ words offset, change.payload field = .ok (words, offset) ∧
        field.Covers offset (some (words.length * wordBytes))) ∧
      ledger.host.Serves field.tree := by
  constructor
  · intro hsucceeds
    have hends : Host.Ends ((Command.update number change).run ledger.fields) ledger.host
        (fun _ _ => ∃ words offset, change.payload field = .ok (words, offset) ∧
          field.Covers offset (some (words.length * wordBytes))) (fun _ _ => True) := by
      simp only [Command.run, hfield]
      rw [Host.ends_bind]
      refine Host.ends_mono (ends_update change h) ?_ fun _ _ _ => trivial
      intro _ host' hend
      obtain ⟨words, offset, before, hpayload, hkept, start, id, bytes, hrange, -, -, hcheck, -⟩ :=
        hend
      exact ⟨words, offset, hpayload,
        Field.covers_of_range h.toArranged (List.mem_of_getElem? hfield) hrange hcheck⟩
    obtain ⟨words, offset, hpayload, hcovers⟩ := Host.of_succeeds hends hsucceeds
    exact ⟨⟨words, offset, hpayload, hcovers⟩,
      (update_succeeds_of_payload h hfield hpayload hcovers).mp hsucceeds⟩
  · intro hboth
    obtain ⟨⟨words, offset, hpayload, hcovers⟩, hserves⟩ := hboth
    exact (update_succeeds_of_payload h hfield hpayload hcovers).mpr hserves

theorem materialize_succeeds_iff (h : Placed ledger.fields ledger.host) :
    (∃ reply, ledger.outcome .materialize = .ok reply) ↔ ledger.host.GrantsAll := by
  refine Host.succeeds_iff ?_
  rw [Command.run, Host.ends_bind]
  exact Host.ends_materialize_grants h

/-- The numbers of a struct field are none, and no storage is wanted for them. -/
theorem outcome_numbers_of_struct (hfield : ledger.fields[number]? = some field)
    (hprimitive : field.type.primitive? = none) :
    ledger.outcome (.query number .toNumbers) = .ok (.numbers []) := by
  simp only [outcome, Command.run, hfield, Query.run, Field.toNumbers, hprimitive]
  rfl

/-- **Whether a request succeeds depends on storage alone.**  In every state that a run reaches, a
query or an update that is right for its field succeeds if and only if the tree of the field has
storage or every tree that wants some, its own among them, is granted it; `toArray` needs the
latter in any case. -/
theorem succeeds_iff_served (limit : Option Nat) (nextId : Nat) (history : List Command) :
    let now := (start limit nextId).after history
    ∀ (number : Nat) (field : Field), now.fields[number]? = some field →
      (∀ request : Query, request.Valid field →
        ((∃ reply, now.outcome (.query number request) = .ok reply)
          ↔ request.Served now.host field)) ∧
      ∀ change : Update, change.Valid field →
        ((∃ reply, now.outcome (.update number change) = .ok reply)
          ↔ now.host.Serves field.tree) := by
  intro now number field hfield
  have hplaced := (stays_after history (placed_start limit nextId)).placed
  exact ⟨fun request hvalid => query_succeeds_iff request hplaced hfield hvalid,
    fun change hvalid => update_succeeds_iff change hplaced hfield hvalid⟩

/-- Two trees that fit the limit, the second of them still without storage. -/
theorem succeeds_iff_served_fitting :
    let now := (start (some 16) 0).after [.declare (.scalar .i32) [3], .materialize,
      .declare (.vector .f32 2) [2]]
    ∃ field, now.fields[1]? = some field ∧ Query.Valid field (.get [1]) ∧
      Update.Valid field (.fromNumbers [⟨0⟩, ⟨0⟩, ⟨0⟩, ⟨0⟩]) ∧
      (∃ reply, now.outcome (.query 1 (.get [1])) = .ok reply) ∧
      ∃ reply, now.outcome (.update 1 (.fromNumbers [⟨0⟩, ⟨0⟩, ⟨0⟩, ⟨0⟩])) = .ok reply := by
  intro now
  have hserves : now.host.Serves 1 := by
    refine Or.inr ?_
    have hpending : now.host.program.pending = [(1, 16)] := rfl
    rw [Host.GrantsAll, hpending]
    simp only [List.mem_singleton, forall_eq]
    exact ⟨fun limit hlimit => by cases hlimit; exact Nat.le_refl _, by decide⟩
  obtain ⟨field, hfield, hget, hput, htree⟩ : ∃ field, now.fields[1]? = some field ∧
      Query.Valid field (.get [1]) ∧ Update.Valid field (.fromNumbers [⟨0⟩, ⟨0⟩, ⟨0⟩, ⟨0⟩]) ∧
      field.tree = 1 := by
    refine ⟨_, rfl, ?_, ?_, rfl⟩
    · exact ⟨by decide, trivial⟩
    · exact ⟨rfl, rfl⟩
  rw [← htree] at hserves
  have hrequests := succeeds_iff_served (some 16) 0 _ 1 field hfield
  exact ⟨field, hfield, hget, hput, (hrequests.1 _ hget).mpr hserves,
    (hrequests.2 _ hput).mpr hserves⟩

/-- A tree within the limit is not served after another one has been refused: with 16 bytes
allowed, a field of 8 bytes cannot be read once a field of 40 bytes wants storage as well. -/
theorem refused_tree_blocks_later :
    let now := (start (some 16) 0).after [.declare (.scalar .i32) [10], .materialize,
      .declare (.scalar .i32) [2]]
    ∃ field, now.fields[1]? = some field ∧ now.host.program.treeSize? field.tree = some 8 ∧
      now.host.memory.Grants 8 ∧ Query.Valid field (.get [0]) ∧
      now.outcome (.query 1 (.get [0]))
        = .error (.error (.device (.memoryExhaustion 40 16))) := by
  refine ⟨_, rfl, rfl, ⟨?_, by decide⟩, ⟨by decide, trivial⟩, rfl⟩
  intro limit hlimit
  cases hlimit
  decide

/-! ### Whole arrays -/

/-- `toArray` fails as the materialization does that it begins with. -/
theorem toArray_of_materialize_error {failure : Failure FieldError}
    (hfield : ledger.fields[number]? = some field)
    (hfailed : ledger.outcome .materialize = .error failure) :
    ledger.outcome (.query number .toArray) = .error failure := by
  simp only [outcome, Command.run, Host.runs_bind] at hfailed
  simp only [outcome, Command.run, hfield, Query.run, Field.toArray, Host.runs_bind]
  rcases hrun : Host.runs (Host.materialize : HostM FieldError Unit) ledger.host
    with ⟨result, host'⟩
  rw [hrun] at hfailed
  cases result with
  | ok _ => cases hfailed
  | error other => exact hfailed

theorem foldable_of_toArray {reply : Reply} (h : Placed ledger.fields ledger.host)
    (hfield : ledger.fields[number]? = some field)
    (hreply : ledger.outcome (.query number .toArray) = .ok reply) :
    NdArray.Foldable field.shape.dims := by
  have hanswer := answer_of_outcome h hfield hreply
  rw [Query.answer, bind_eq_ok] at hanswer
  obtain ⟨elements, -, hanswer⟩ := hanswer
  rw [bind_eq_ok] at hanswer
  obtain ⟨nested, hnested, -⟩ := hanswer
  exact NdArray.foldable_of_reshape hnested

/-- A query that is answered is right for its field, or asks a struct field for its numbers. -/
theorem valid_of_query {request : Query} {reply : Reply} (h : Placed ledger.fields ledger.host)
    (hfield : ledger.fields[number]? = some field)
    (hreply : ledger.outcome (.query number request) = .ok reply) :
    request.Valid field ∨ request = .toNumbers ∧ field.type.primitive? = none := by
  have hmem := List.mem_of_getElem? hfield
  have hends : Host.Ends ((Command.query number request).run ledger.fields) ledger.host
      (fun reply host' => request.Replies field host' reply) (fun _ _ => True) := by
    simp only [Command.run, hfield]
    exact Host.ends_mono (ends_query request h) (fun _ _ hend => hend.2) fun _ _ _ => trivial
  obtain ⟨host', hreplies⟩ := Host.of_outcome hends hreply
  cases request with
  | read offset length =>
      obtain ⟨lanes, ⟨start, count, id, bytes, hrange, -, -, hcheck, -⟩, -⟩ := hreplies
      exact Or.inl (Field.covers_of_range h.toArranged hmem hrange hcheck)
  | get indices =>
      obtain ⟨offset, length, -, -, hrange, -⟩ := hreplies
      rw [Field.byteRange, bind_eq_ok] at hrange
      obtain ⟨flat, hflat, -⟩ := hrange
      exact Or.inl (Shape.within_of_flatIndex hflat)
  | toArray => exact Or.inl (foldable_of_toArray h hfield hreply)
  | toNumbers =>
      cases hprimitive : field.type.primitive? with
      | none => exact Or.inr ⟨rfl, rfl⟩
      | some primitive => exact Or.inl (by rw [Query.Valid, hprimitive]; rfl)

/-- **A field with storage is read element by element whatever is refused elsewhere, but read as a
whole only if nothing is.**  `toArray` begins with a materialization and fails as that does, which
happens exactly if some tree that wants storage is not granted it. -/
theorem toArray_succeeds_iff_grantsAll (limit : Option Nat) (nextId : Nat)
    (history : List Command) :
    let now := (start limit nextId).after history
    ∀ (number : Nat) (field : Field), now.fields[number]? = some field →
      now.host.program.isMaterialized field.tree = true →
        (∀ indices, Shape.Within indices field.shape.dims →
          ∃ reply, now.outcome (.query number (.get indices)) = .ok reply) ∧
        ((∃ reply, now.outcome (.query number .toArray) = .ok reply)
          ↔ now.host.GrantsAll ∧ NdArray.Foldable field.shape.dims) ∧
        ((∃ reply, now.outcome .materialize = .ok reply) ↔ now.host.GrantsAll) ∧
        ∀ failure, now.outcome .materialize = .error failure →
          now.outcome (.query number .toArray) = .error failure := by
  intro now number field hfield hstorage
  have hplaced := (stays_after history (placed_start limit nextId)).placed
  refine ⟨?_, ⟨?_, ?_⟩, materialize_succeeds_iff hplaced, ?_⟩
  · intro indices hwithin
    exact (query_succeeds_iff (.get indices) hplaced hfield hwithin).mpr (Or.inl hstorage)
  · intro hsucceeds
    obtain ⟨reply, hreply⟩ := hsucceeds
    have hfold := foldable_of_toArray hplaced hfield hreply
    exact ⟨(query_succeeds_iff .toArray hplaced hfield hfold).mp ⟨reply, hreply⟩, hfold⟩
  · intro hboth
    obtain ⟨hgrants, hfold⟩ := hboth
    exact (query_succeeds_iff .toArray hplaced hfield hfold).mpr hgrants
  · intro failure hfailed
    exact toArray_of_materialize_error hfield hfailed

/-- A field of two axes with storage, and another tree that fits. -/
theorem toArray_succeeds_iff_grantsAll_fitting :
    let now := (start (some 16) 0).after [.declare (.scalar .i32) [2, 2], .materialize,
      .declare (.scalar .f32) [1]]
    ∃ reply, now.outcome (.query 0 .toArray) = .ok reply := by
  intro now
  obtain ⟨field, hfield, hstorage, hfold⟩ : ∃ field, now.fields[0]? = some field ∧
      now.host.program.isMaterialized field.tree = true ∧
      NdArray.Foldable field.shape.dims := by
    refine ⟨_, rfl, rfl, ?_⟩
    intro axis hmem
    cases List.mem_singleton.mp hmem
    decide
  have hall : ∃ reply, now.outcome .materialize = .ok reply := ⟨_, rfl⟩
  obtain ⟨-, harray, hmaterialize, -⟩ :=
    toArray_succeeds_iff_grantsAll (some 16) 0 _ 0 field hfield hstorage
  exact harray.mpr ⟨hmaterialize.mp hall, hfold⟩

/-- With 16 bytes allowed, a field with storage is read element by element but not as a whole once
a field of 40 bytes has been declared. -/
theorem toArray_refused_for_other_tree :
    let now := (start (some 16) 0).after [.declare (.scalar .i32) [2], .materialize,
      .declare (.scalar .i32) [10]]
    ∃ field, now.fields[0]? = some field ∧ now.host.program.isMaterialized field.tree = true ∧
      now.outcome (.query 0 (.get [0])) = .ok (.value (.number ⟨0⟩)) ∧
      now.outcome (.query 0 (.get [1])) = .ok (.value (.number ⟨0⟩)) ∧
      now.outcome (.query 0 .toArray)
        = .error (.error (.device (.memoryExhaustion 40 16))) :=
  ⟨_, rfl, rfl, rfl, rfl, rfl⟩

end FieldStore.Ledger
