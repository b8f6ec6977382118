/-
How a request that fits its field can end.

There are three ways.  It is answered; or a tree that wants storage exceeds the limit of the
memory; or something has no room in one object, be it a tree, the list of an array that is to be
written or an axis of one that is read.  All other branches are out of reach: a field of the
program lies in a tree of the program, the storage of the tree is known to the memory and as long
as the tree, a range of the field ends within it, and so every sum and product on the way has an
address.  And as storage is never taken back, a field that has some is served whatever happens,
save that `toArray` asks for all storage and not only for its own.
-/
import FieldStore.Proofs.Store.Availability

namespace FieldStore

variable {fields : List Field} {host host' : Host} {field : Field}

/-! ### Requests that fit -/

/-- Whether a query fits a field: its range, or its indices, are within. -/
def Query.Fits (field : Field) : Query → Prop
  | read offset length => field.Covers offset length
  | get indices => Shape.Within indices field.shape.dims
  | toArray | toNumbers => True

/-- Whether an update fits a field: its values conform as well, and are as many as the field has. -/
def Update.Fits (field : Field) : Update → Prop
  | write words offset => field.Covers offset (some (words.length * wordBytes))
  | set indices value => Shape.Within indices field.shape.dims ∧ field.type.Conforms value
  | fromArray nested => nested.Filled field.type.Conforms field.shape.dims
  | fromNumbers numbers =>
      field.type.primitive?.isSome = true ∧ numbers.length * wordBytes = field.size

/-- Whether every tree that wants storage within the limit can be one object. -/
def Host.Roomy (host : Host) : Prop :=
  ∀ entry ∈ host.program.pending,
    (∀ limit, host.memory.limit = some limit → entry.2 ≤ limit) → entry.2 ≤ Size.objectLimit

/-- Whether the reply to a query can be held. -/
def Query.Roomy (field : Field) : Query → Prop
  | toArray => NdArray.Foldable field.shape.dims
  | read _ _ | get _ | toNumbers => True

/-- Whether the elements of an update can be listed. -/
def Update.Roomy (field : Field) : Update → Prop
  | fromArray _ => NdArray.referenceWidth * field.shape.dims.prod ≤ Size.objectLimit
  | write _ _ | set _ _ | fromNumbers _ => True

/-- The ways in which a request that fits may end on a host. -/
inductive Host.Expects (host : Host) (roomy : Prop) : Outcome FieldError Reply → Prop
  | answered (reply : Reply) : Expects host roomy (.ok reply)
  /-- A tree that wants storage exceeds the limit. -/
  | exhausted {index size limit : Nat} (hpending : (index, size) ∈ host.program.pending)
      (hlimit : host.memory.limit = some limit) (hlt : limit < size) :
      Expects host roomy (.error (.error (.device (.memoryExhaustion size limit))))
  /-- Something has no room in one object. -/
  | crowded (hfull : ¬ roomy) : Expects host roomy (.error (.fault .capacity))

/-- A materialization fails in these ways only. -/
theorem Host.Falters.expected {failure : Failure FieldError} {roomy : Prop}
    (h : host.Falters failure host') (hroomy : roomy → host.Roomy) :
    host.Expects roomy (.error failure) := by
  obtain ⟨given, index, size, rest, hpending, -, hrefuses⟩ := h
  have hmem : (index, size) ∈ host.program.pending := by simp [hpending]
  have hsame : (host.closed.supply given).memory.limit = host.memory.limit := limit_supply given _
  cases hrefuses with
  | limit hlimit hlt => exact .exhausted hmem (hsame ▸ hlimit) hlt
  | room hfits hlt =>
      refine .crowded fun hall => ?_
      have hle := hroomy hall (index, size) hmem (hsame ▸ hfits)
      exact absurd hlt (Nat.not_lt.mpr hle)

theorem Query.ends_expected {request : Query} (h : Placed fields host) (hmem : field ∈ fields)
    (hfits : request.Fits field) :
    Host.Ends (request.run field) host
      (fun reply _ => host.Expects (host.Roomy ∧ request.Roomy field) (.ok reply))
      fun failure _ => host.Expects (host.Roomy ∧ request.Roomy field) (.error failure) := by
  have hvalid : request.Valid field → Host.Ends (request.run field) host
      (fun reply _ => host.Expects (host.Roomy ∧ request.Roomy field) (.ok reply))
      fun failure _ => host.Expects (host.Roomy ∧ request.Roomy field) (.error failure) :=
    fun hvalid => Host.ends_mono (ends_query_served h hmem hvalid)
      (fun reply _ _ => .answered reply) fun _ _ hunserved => hunserved.2.expected And.left
  cases request with
  | read offset length => exact hvalid hfits
  | get indices => exact hvalid hfits
  | toArray =>
      unfold Query.run
      rw [Host.ends_bind]
      refine Host.ends_mono (Field.ends_toArray_room h hmem) (fun _ _ _ => .answered _) ?_
      rintro failure host' (hunserved | ⟨rfl, hno⟩)
      · exact hunserved.2.expected And.left
      · exact .crowded fun hroomy => hno hroomy.2
  | toNumbers =>
      cases hprimitive : field.type.primitive? with
      | some primitive => exact hvalid (by rw [Query.Valid, hprimitive]; rfl)
      | none =>
          unfold Query.run Field.toNumbers
          rw [Host.ends_bind]
          simp only [hprimitive]
          exact Host.Expects.answered _

/-- An update that fits and whose elements can be listed is right. -/
theorem Update.valid_of_fits {change : Update} {trees : List Tree} (h : Arranged fields trees)
    (hmem : field ∈ fields) (hfits : change.Fits field) (hroomy : change.Roomy field) :
    change.Valid field := by
  cases change with
  | write words offset => exact hfits
  | set indices value => exact hfits
  | fromArray nested =>
      have hflatten := NdArray.flatten_eq_leaves hfits field.shape.dims_pos (h.prod_lt hmem) hroomy
      exact ⟨nested.leaves, hflatten, NdArray.of_mem_leaves hfits⟩
  | fromNumbers numbers => exact hfits

theorem Update.ends_expected {change : Update} (h : Placed fields host) (hmem : field ∈ fields)
    (hfits : change.Fits field) :
    Host.Ends (change.run field) host (fun _ _ => True)
      fun failure _ => host.Expects (host.Roomy ∧ change.Roomy field) (.error failure) := by
  by_cases hroomy : change.Roomy field
  · have hvalid := change.valid_of_fits h.toArranged hmem hfits hroomy
    exact Host.ends_mono (ends_update_serves h hmem hvalid) (fun _ _ _ => trivial)
      fun _ _ hunserved => hunserved.2.expected And.left
  · cases change with
    | write | set | fromNumbers => exact absurd trivial hroomy
    | fromArray nested =>
        have hfull := NdArray.flatten_of_no_room nested field.shape.dims_pos
          (h.toArranged.prod_lt hmem) hroomy
        rw [Update.run, Field.fromArray, hfull, Host.ends_bind]
        refine Host.ends_lift (fun _ hc => by cases hc) fun failure hfailed => ?_
        cases hfailed
        exact .crowded fun hboth => hroomy hboth.2

namespace Ledger

/-- **On its own fields a program meets no errors but the expected ones.**  In every state that a
run reaches, whatever else happened in it, a request that fits its field is answered, unless a
tree that wants storage exceeds the limit or something has no room in one object.  The end of the
field has an address, so none of the places in between overflows.  And once the tree of the field
has storage, every request but `toArray` is answered. -/
theorem only_expected_errors (limit : Option Nat) (nextId : Nat) (history : List Command) :
    let now := (start limit nextId).after history
    ∀ (number : Nat) (field : Field), now.fields[number]? = some field →
      field.offset + field.size < Size.bound ∧
      (∀ request : Query, request.Fits field →
        now.host.Expects (now.host.Roomy ∧ request.Roomy field)
          (now.outcome (.query number request))) ∧
      (∀ change : Update, change.Fits field →
        now.host.Expects (now.host.Roomy ∧ change.Roomy field)
          (now.outcome (.update number change))) ∧
      (now.host.program.isMaterialized field.tree = true →
        (∀ request : Query, request.Fits field → request ≠ .toArray →
          ∃ reply, now.outcome (.query number request) = .ok reply) ∧
        ∀ change : Update, change.Fits field → change.Roomy field →
          ∃ reply, now.outcome (.update number change) = .ok reply) := by
  intro now number field hfield
  have hplaced := (stays_after history (placed_start limit nextId)).placed
  have hmem := List.mem_of_getElem? hfield
  refine ⟨hplaced.toArranged.end_lt hmem, ?_, ?_, ?_⟩
  · intro request hfits
    simp only [outcome, Command.run, hfield]
    exact Host.outcome_of_ends (P := fun outcome _ => now.host.Expects _ outcome)
      (Query.ends_expected hplaced hmem hfits)
  · intro change hfits
    simp only [outcome, Command.run, hfield]
    refine Host.outcome_of_ends (P := fun outcome _ => now.host.Expects _ outcome) ?_
    rw [Host.ends_bind]
    exact Host.ends_mono (Update.ends_expected hplaced hmem hfits) (fun _ _ _ => .answered _)
      fun _ _ hexpected => hexpected
  · intro hstored
    constructor
    · intro request hfits hne
      by_cases hvalid : request.Valid field
      · refine (query_succeeds_iff request hplaced hfield hvalid).mpr ?_
        cases request with
        | toArray => exact absurd rfl hne
        | read | get | toNumbers => exact Or.inl hstored
      · cases request with
        | read | get => exact absurd hfits hvalid
        | toArray => exact absurd rfl hne
        | toNumbers =>
            have hstruct : field.type.primitive? = none := Option.not_isSome_iff_eq_none.mp hvalid
            exact ⟨_, outcome_numbers_of_struct hfield hstruct⟩
    · intro change hfits hroomy
      exact (update_succeeds_iff change hplaced hfield
        (change.valid_of_fits hplaced.toArranged hmem hfits hroomy)).mpr (Or.inl hstored)

/-- With 16 bytes allowed, one field with storage, a region of someone else, and a field that
cannot have any storage. -/
theorem only_expected_errors_refused :
    let now := (start (some 16) 0).after [.declare (.scalar .i32) [2], .materialize, .allocate 12,
      .declare (.vector .f32 2) [5]]
    (∃ reply, now.outcome (.update 0 (.set [1] (.number ⟨0⟩))) = .ok reply) ∧
      ∃ field, now.fields[1]? = some field ∧ field.offset + field.size < Size.bound ∧
        now.host.Expects (now.host.Roomy ∧ Query.Roomy field .toNumbers)
          (now.outcome (.query 1 .toNumbers)) ∧
        now.outcome (.query 1 .toNumbers)
          = .error (.error (.device (.memoryExhaustion 40 16))) := by
  intro now
  obtain ⟨first, second, hfirst, hsecond, hstored, hfits, hfailed⟩ :
      ∃ first second : Field, now.fields[0]? = some first ∧ now.fields[1]? = some second ∧
        now.host.program.isMaterialized first.tree = true ∧
        Update.Fits first (.set [1] (.number ⟨0⟩)) ∧
        now.outcome (.query 1 .toNumbers)
          = .error (.error (.device (.memoryExhaustion 40 16))) := by
    refine ⟨_, _, rfl, rfl, rfl, ⟨⟨by decide, trivial⟩, ?_⟩, rfl⟩
    trivial
  obtain ⟨-, -, -, hserved⟩ := only_expected_errors (some 16) 0 _ 0 first hfirst
  obtain ⟨hend, hquery, -⟩ := only_expected_errors (some 16) 0 _ 1 second hsecond
  exact ⟨(hserved hstored).2 _ hfits trivial, second, hsecond, hend, hquery .toNumbers trivial,
    hfailed⟩

end Ledger

end FieldStore
