/-
Runs of one program on its host.

A run is a list of commands.  A command declares a field, materializes, reads or writes a field,
or goes to the memory directly.  The fields that the program has declared are known by number,
in the order of their declaration; any other field may be used as well, as one that came from
another program.  Identities may be drawn elsewhere in between.  A command that fails, by an
error or by a fault, leaves the host as far as it had got, and the run goes on from there.
-/
import FieldStore.Proofs.Store.Transfer

namespace FieldStore

/-! ### Commands -/

/-- What a command answers. -/
inductive Reply
  | done
  | field (field : Field)
  | lanes (lanes : Lanes)
  | value (value : Value)
  | array (nested : NdArray Value)
  | numbers (numbers : List Binary64)
  | tree (id : TreeId)

/-- A way to read a field. -/
inductive Query
  | read (offset length : Option Nat)
  | get (indices : List Nat)
  | toArray
  | toNumbers

/-- A way to write a field. -/
inductive Update
  | write (words : List Word) (offset : Option Nat)
  | set (indices : List Nat) (value : Value)
  | fromArray (nested : NdArray Value)
  | fromNumbers (numbers : List Binary64)

/-- One step of a run. -/
inductive Command
  | declare (ty : ElementType) (dims : List Nat)
  | materialize
  /-- Reads the field of this number. -/
  | query (number : Nat) (request : Query)
  /-- Writes the field of this number. -/
  | update (number : Nat) (change : Update)
  /-- Reads any field, of whatever program. -/
  | queryForeign (field : Field) (request : Query)
  /-- Writes any field, of whatever program. -/
  | updateForeign (field : Field) (change : Update)
  | allocate (size : Nat)
  | readRegion (id : TreeId) (offset length : Nat)
  | writeRegion (id : TreeId) (offset : Nat) (words : List Word)
  /-- An identity is drawn by someone else. -/
  | drawId

/-- Reading a field. -/
def Query.run (field : Field) : Query → HostM FieldError Reply
  | read offset length => do
      let lanes ← field.read offset length
      return .lanes lanes
  | get indices => do
      let value ← field.get indices
      return .value value
  | toArray => do
      let nested ← field.toArray
      return .array nested
  | toNumbers => do
      let numbers ← field.toNumbers
      return .numbers numbers

/-- Writing a field. -/
def Update.run (field : Field) : Update → HostM FieldError Unit
  | write words offset => field.write words offset
  | set indices value => field.set indices value
  | fromArray nested => field.fromArray nested
  | fromNumbers numbers => field.fromNumbers numbers

/-- A command, given the fields declared so far.  Nothing is done about a number that stands for
none of them. -/
def Command.run (fields : List Field) : Command → HostM FieldError Reply
  | declare ty dims => do
      let field ← Host.declare ty dims
      return .field field
  | materialize => do
      Host.materialize
      return .done
  | query number request =>
      match fields[number]? with
      | some field => request.run field
      | none => return .done
  | update number change =>
      match fields[number]? with
      | some field => do
          change.run field
          return .done
      | none => return .done
  | queryForeign field request => request.run field
  | updateForeign field change => do
      change.run field
      return .done
  | allocate size => do
      let id ← Host.onDevice (Host.allocate size)
      return .tree id
  | readRegion id offset length => do
      let lanes ← Host.onDevice (Host.readRegion id offset length)
      return .lanes lanes
  | writeRegion id offset words => do
      Host.onDevice (Host.writeRegion id offset words)
      return .done
  | drawId => do
      let id ← Host.drawId
      return .tree id

/-- A command that materializes, or that reads or writes a field. -/
def Command.IsAccess : Command → Prop
  | materialize | query _ _ | update _ _ | queryForeign _ _ | updateForeign _ _ => True
  | declare _ _ | allocate _ | readRegion _ _ _ | writeRegion _ _ _ | drawId => False

/-- A command that goes to the memory directly. -/
def Command.IsDirect : Command → Prop
  | allocate _ | readRegion _ _ _ | writeRegion _ _ _ | drawId => True
  | declare _ _ | materialize | query _ _ | update _ _ | queryForeign _ _ | updateForeign _ _ =>
      False

/-! ### Runs -/

/-- A host and the fields declared on it so far, in order. -/
structure Ledger where
  host : Host
  fields : List Field

namespace Ledger

/-- A program without fields on a memory without regions. -/
def start (limit : Option Nat) (nextId : Nat) : Ledger :=
  ⟨⟨Program.empty, HostMemory.empty limit, nextId, []⟩, []⟩

/-- How a command ends. -/
def outcome (ledger : Ledger) (command : Command) : Outcome FieldError Reply :=
  (Host.runs (command.run ledger.fields) ledger.host).1

/-- The fields that an outcome adds. -/
def declared : Outcome FieldError Reply → List Field
  | .ok (.field field) => [field]
  | _ => []

/-- The ledger after a command. -/
def step (ledger : Ledger) (command : Command) : Ledger :=
  ⟨(Host.runs (command.run ledger.fields) ledger.host).2,
    ledger.fields ++ declared (ledger.outcome command)⟩

/-- The ledger after a run. -/
def after (ledger : Ledger) (commands : List Command) : Ledger := commands.foldl step ledger

/-- Whether every command of a run succeeds. -/
def Succeeds : Ledger → List Command → Prop
  | _, [] => True
  | ledger, command :: rest =>
      (∃ reply, ledger.outcome command = .ok reply) ∧ (ledger.step command).Succeeds rest

end Ledger

/-! ### Reading and writing a field -/

/-- The words that an update hands to the field, and where they go. -/
def Update.payload (field : Field) : Update → Outcome FieldError (List Word × Option Nat)
  | write words offset => .ok (words, offset)
  | set indices value => do
      let (offset, _) ← field.byteRange indices
      let words ← field.type.encodeWords value
      return (words, some offset)
  | fromArray nested => do
      let elements ← nested.flatten field.shape.dims
      let words ← Field.encodeElements field.type elements
      return (words, none)
  | fromNumbers numbers =>
      match field.type.primitive? with
      | none => .error (.error (.tensorOnly .flatWrite))
      | some primitive =>
          let length := numbers.length * wordBytes
          if length ≠ field.size then .error (.error (.sizeMismatch field.size length))
          else .ok (numbers.map primitive.toWord, none)

/-- An update is checked and then written. -/
theorem Update.run_eq (field : Field) (change : Update) :
    change.run field = (do
      let (words, offset) ← (change.payload field : Outcome FieldError (List Word × Option Nat))
      field.write words offset : HostM FieldError Unit) := by
  cases change with
  | write words offset => rfl
  | set indices value =>
      rw [run, Field.set, payload]
      cases field.byteRange indices with
      | error failure => rfl
      | ok pair => cases field.type.encodeWords value <;> rfl
  | fromArray nested =>
      rw [run, Field.fromArray, payload]
      cases nested.flatten field.shape.dims with
      | error failure => rfl
      | ok elements =>
          refine Host.eq_of_runs fun host => ?_
          simp only [Host.runs_bind, Host.runs_lift]
          cases hwords : Field.encodeElements field.type elements with
          | error failure => simp only [bind, Except.bind, hwords]
          | ok words => simp only [bind, Except.bind, hwords, pure, Except.pure]
  | fromNumbers numbers =>
      rw [run, Field.fromNumbers, payload]
      cases field.type.primitive? with
      | none => rfl
      | some primitive =>
          by_cases hlen : numbers.length * wordBytes ≠ field.size
          · simp only [if_pos hlen]
            rfl
          · simp only [if_neg hlen]
            rfl

/-- The reply to a query on a host.  A struct field has no numbers to give. -/
def Query.Replies (request : Query) (field : Field) (host : Host) (reply : Reply) : Prop :=
  match request with
  | read offset length => ∃ lanes, field.Reads offset length host lanes ∧ reply = .lanes lanes
  | get indices => ∃ offset length lanes value, field.byteRange indices = .ok (offset, length) ∧
      field.Reads (some offset) (some length) host lanes ∧ field.type.decode lanes = .ok value ∧
      reply = .value value
  | toArray => ∃ lanes elements nested, field.Reads none none host lanes ∧
      field.type.decodeAll lanes = .ok elements ∧
      NdArray.reshape elements field.shape.dims = .ok nested ∧ reply = .array nested
  | toNumbers =>
      match field.type.primitive? with
      | none => reply = .numbers []
      | some primitive => ∃ lanes, field.Reads none none host lanes ∧
          reply = .numbers (lanes.numbers primitive)

theorem Query.not_replies_field {request : Query} {field other : Field} {host : Host} :
    ¬ request.Replies field host (.field other) := by
  intro h
  cases request with
  | read offset length =>
      obtain ⟨_, _, hc⟩ := h
      cases hc
  | get indices =>
      obtain ⟨_, _, _, _, _, _, _, hc⟩ := h
      cases hc
  | toArray =>
      obtain ⟨_, _, _, _, _, _, hc⟩ := h
      cases hc
  | toNumbers =>
      unfold Query.Replies at h
      cases hprimitive : field.type.primitive? with
      | none =>
          rw [hprimitive] at h
          cases h
      | some primitive =>
          rw [hprimitive] at h
          obtain ⟨_, _, hc⟩ := h
          cases hc

section Specs

variable {fields : List Field} {host : Host} {field : Field}

theorem ends_query (request : Query) (h : Placed fields host) :
    Host.Ends (request.run field) host
      (fun reply host' => Host.Kept fields host host' ∧ request.Replies field host' reply)
      (fun _ host' => Host.Kept fields host host') := by
  cases request with
  | read offset length =>
      unfold Query.run
      rw [Host.ends_bind]
      refine Host.ends_mono (Field.ends_read h) ?_ fun _ _ hkept => hkept
      intro lanes host' hend
      obtain ⟨hkept, hreads⟩ := hend
      exact ⟨hkept, lanes, hreads, rfl⟩
  | get indices =>
      unfold Query.run Field.get
      rw [Host.ends_bind, Host.ends_bind]
      refine Host.ends_lift ?_ fun _ _ => .refl h
      intro pair hrange
      obtain ⟨offset, length⟩ := pair
      rw [Host.ends_bind]
      refine Host.ends_mono (Field.ends_read h) ?_ fun _ _ hkept => hkept
      intro lanes host' hend
      obtain ⟨hkept, hreads⟩ := hend
      refine Host.ends_lift ?_ fun _ _ => hkept
      intro value hvalue
      exact ⟨hkept, offset, length, lanes, value, hrange, hreads, hvalue, rfl⟩
  | toArray =>
      unfold Query.run Field.toArray
      rw [Host.ends_bind, Host.ends_bind]
      refine Host.ends_mono (Host.ends_materialize h) ?_ fun _ _ hkept => hkept
      intro _ host' hend
      obtain ⟨hkept, -⟩ := hend
      rw [Host.ends_bind]
      refine Host.ends_mono (Field.ends_read hkept.placed) ?_ fun _ _ hkept' => hkept.trans hkept'
      intro lanes host'' hend
      obtain ⟨hkept', hreads⟩ := hend
      have hboth := hkept.trans hkept'
      rw [Host.ends_bind]
      refine Host.ends_lift ?_ fun _ _ => hboth
      intro elements helements
      refine Host.ends_lift ?_ fun _ _ => hboth
      intro nested hnested
      exact ⟨hboth, lanes, elements, nested, hreads, helements, hnested, rfl⟩
  | toNumbers =>
      unfold Query.run Field.toNumbers Query.Replies
      rw [Host.ends_bind]
      cases field.type.primitive? with
      | none => exact ⟨.of_eq h rfl rfl (Nat.le_refl _), rfl⟩
      | some primitive =>
          show Host.Ends (field.read none none >>= _) host _ _
          rw [Host.ends_bind]
          refine Host.ends_mono (Field.ends_read h) ?_ fun _ _ hkept => hkept
          intro lanes host' hend
          obtain ⟨hkept, hreads⟩ := hend
          exact ⟨hkept, lanes, hreads, rfl⟩

theorem ends_update (change : Update) (h : Placed fields host) :
    Host.Ends (change.run field) host
      (fun _ host' => ∃ words offset before, change.payload field = .ok (words, offset) ∧
        Host.Kept fields host before ∧ field.Writes words offset before host')
      (fun _ host' => Host.Kept fields host host') := by
  rw [Update.run_eq, Host.ends_bind]
  refine Host.ends_lift ?_ fun _ _ => .refl h
  intro pair hpayload
  obtain ⟨words, offset⟩ := pair
  refine Host.ends_mono (Field.ends_write h) ?_ fun _ _ hkept => hkept
  intro _ host' hend
  obtain ⟨before, hkept, hwrites⟩ := hend
  exact ⟨words, offset, before, hpayload, hkept, hwrites⟩

end Specs

/-! ### What a command can do

Every command declares a field, writes somewhere or lets the host grow.  Whatever is proved of
all commands is proved of these cases. -/

/-- The ways in which a command ends and the host that it leaves. -/
inductive Effect (fields : List Field) (host : Host) :
    Command → Outcome FieldError Reply → Host → Prop
  | declared {ty : ElementType} {dims : List Nat} {field : Field} {program : Program}
      (hdeclare : host.program.declare ty dims = .ok (field, program)) :
      Effect fields host (.declare ty dims) (.ok (.field field)) { host with program := program }
  | wrote {number : Nat} {change : Update} {field : Field} {words : List Word}
      {offset : Option Nat} {before host' : Host} (hfield : fields[number]? = some field)
      (hpayload : change.payload field = .ok (words, offset))
      (hkept : Host.Kept fields host before) (hwrites : field.Writes words offset before host') :
      Effect fields host (.update number change) (.ok .done) host'
  | wroteForeign {field : Field} {change : Update} {words : List Word} {offset : Option Nat}
      {before host' : Host} (hkept : Host.Kept fields host before)
      (hwrites : field.Writes words offset before host') :
      Effect fields host (.updateForeign field change) (.ok .done) host'
  | wroteRegion {id : TreeId} {offset : Nat} {words : List Word} {bytes : List Byte}
      (hbytes : host.memory.region? id = some bytes)
      (hrange : checkRange offset (words.length * wordBytes) bytes.length = .ok ()) :
      Effect fields host (.writeRegion id offset words) (.ok .done)
        (host.written id offset words bytes)
  /-- Nothing was declared or written, be it that the command failed. -/
  | kept {command : Command} {outcome : Outcome FieldError Reply} {host' : Host}
      (hkept : Host.Kept fields host host') (hnone : Ledger.declared outcome = [])
      (hno : ∀ number change, command = .update number change →
        fields[number]? = none ∨ ∃ failure, outcome = .error failure) :
      Effect fields host command outcome host'

section Effects

variable {fields : List Field} {host host' : Host} {command : Command}

theorem Effect.failed {failure : Failure FieldError} (h : Host.Kept fields host host') :
    Effect fields host command (.error failure) host' :=
  .kept h rfl fun _ _ _ => Or.inr ⟨failure, rfl⟩

/-- A query replies with anything but a field. -/
theorem effect_query {field : Field} {request : Query} (h : Placed fields host)
    (hno : ∀ number change, command ≠ .update number change) :
    Host.Ends (request.run field) host
      (fun reply => Effect fields host command (.ok reply))
      (fun failure => Effect fields host command (.error failure)) := by
  refine Host.ends_mono (ends_query request h) ?_ fun _ _ hkept => .failed hkept
  intro reply host' hend
  obtain ⟨hkept, hreplies⟩ := hend
  refine .kept hkept ?_ fun number change hc => absurd hc (hno number change)
  cases reply with
  | field other => exact absurd hreplies Query.not_replies_field
  | done | lanes | value | array | numbers | tree => rfl

/-- An update that succeeds has written its words, whichever program the field is of. -/
theorem effect_update {field : Field} {change : Update} (h : Placed fields host)
    (hwrote : ∀ {words : List Word} {offset : Option Nat} {before host' : Host},
      change.payload field = .ok (words, offset) → Host.Kept fields host before →
        field.Writes words offset before host' → Effect fields host command (.ok .done) host') :
    Host.Ends (change.run field) host (fun _ => Effect fields host command (.ok .done))
      (fun failure => Effect fields host command (.error failure)) := by
  refine Host.ends_mono (ends_update change h) ?_ fun _ _ hkept => .failed hkept
  intro _ host' hend
  obtain ⟨words, offset, before, hpayload, hkept, hwrites⟩ := hend
  exact hwrote hpayload hkept hwrites

/-- What goes to the memory directly writes a region or leaves them as they are. -/
theorem effect_direct (h : Placed fields host) (hdirect : command.IsDirect) :
    Host.Ends (command.run fields) host (fun reply => Effect fields host command (.ok reply))
      (fun failure => Effect fields host command (.error failure)) := by
  have hsame : ∀ {host' : Host}, host'.program = host.program →
      host'.memory.regions = host.memory.regions → host.nextId ≤ host'.nextId →
        Host.Kept fields host host' :=
    fun hprogram hregions hnext => .of_eq h (by rw [hprogram]) hregions hnext
  cases command with
  | allocate size =>
      unfold Command.run
      rw [Host.ends_bind, Host.ends_onDevice]
      exact Host.ends_allocate
        (fun padded _ _ => .kept (Host.kept_allocated h padded) rfl nofun)
        (fun _ _ => .failed (.refl h))
        fun _ _ _ => .failed (hsame rfl rfl (Nat.le_succ _))
  | readRegion id offset length =>
      unfold Command.run
      rw [Host.ends_bind, Host.ends_onDevice]
      exact Host.ends_readRegion
        (fun _ _ _ => .kept (hsame rfl rfl (Nat.le_refl _)) rfl nofun)
        fun _ _ => .failed (.refl h)
  | writeRegion id offset words =>
      unfold Command.run
      rw [Host.ends_bind, Host.ends_onDevice]
      exact Host.ends_writeRegion (fun _ hbytes hrange => .wroteRegion hbytes hrange)
        fun _ _ => .failed (.refl h)
  | drawId =>
      unfold Command.run
      rw [Host.ends_bind, Host.ends_drawId]
      exact .kept (hsame rfl rfl (Nat.le_succ _)) rfl nofun
  | declare | materialize | query | update | queryForeign | updateForeign => exact hdirect.elim

theorem effect_of_run (command : Command) (h : Placed fields host) :
    Effect fields host command (Host.runs (command.run fields) host).1
      (Host.runs (command.run fields) host).2 := by
  apply Host.outcome_of_ends (P := Effect fields host command)
  cases command with
  | declare ty dims =>
      unfold Command.run
      rw [Host.ends_bind]
      exact Host.ends_declare (fun _ _ hdeclare => .declared hdeclare)
        fun _ _ => .failed (.refl h)
  | materialize =>
      unfold Command.run
      rw [Host.ends_bind]
      refine Host.ends_mono (Host.ends_materialize h) ?_ fun _ _ hkept => .failed hkept
      intro _ host' hend
      obtain ⟨hkept, -⟩ := hend
      exact .kept hkept rfl nofun
  | query number request =>
      cases hfield : fields[number]? with
      | some field =>
          simp only [Command.run, hfield]
          exact effect_query h nofun
      | none =>
          simp only [Command.run, hfield]
          rw [Host.ends_pure]
          exact .kept (.refl h) rfl nofun
  | update number change =>
      cases hfield : fields[number]? with
      | some field =>
          simp only [Command.run, hfield]
          rw [Host.ends_bind]
          exact effect_update h fun hpayload hkept hwrites => .wrote hfield hpayload hkept hwrites
      | none =>
          simp only [Command.run, hfield]
          rw [Host.ends_pure]
          refine .kept (.refl h) rfl ?_
          intro _ _ heq
          cases heq
          exact Or.inl hfield
  | queryForeign field request => exact effect_query h nofun
  | updateForeign field change =>
      unfold Command.run
      rw [Host.ends_bind]
      exact effect_update h fun _ hkept hwrites => .wroteForeign hkept hwrites
  | allocate | readRegion | writeRegion | drawId => exact effect_direct h trivial

end Effects

end FieldStore
