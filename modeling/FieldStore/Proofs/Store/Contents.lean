/-
Fields as independent stores of words.

Seen from outside a program is one list of words per field: zeros at first, replaced in part or
in whole by the writes to that field that succeed, and by nothing else.  A read answers from the
list of its field alone.  The host agrees with this at every point of a run: what a field holds
is its list.  One step keeps the agreement because a step declares, writes one field or only lets
the host grow; the run follows by induction, and what has no write in it cannot be seen.
-/
import FieldStore.Proofs.Element.Decode
import FieldStore.Proofs.Element.Encode
import FieldStore.Proofs.Grid.Nested
import FieldStore.Proofs.Store.Held

namespace FieldStore

/-! ### What is read and written -/

/-- The words of the element at a position. -/
def Field.elementWords (field : Field) (words : List Word) (position : Nat) : List Word :=
  window (position * field.type.slotCount) field.type.slotCount words

/-- What a query finds in the words of a field.  The numbers of a struct field are none. -/
def Query.answer (field : Field) (words : List Word) : Query → Outcome FieldError Reply
  | read offset length =>
      let start := offset.getD 0
      let count := length.getD (field.size - start)
      .ok (.lanes (Lanes.ofWords (window (start / wordBytes) (count / wordBytes) words)))
  | get indices => do
      let position := Shape.rowMajor indices field.shape.dims
      let value ← field.type.decodeWords (field.elementWords words position)
      return .value value
  | toArray => do
      let elements ← ((List.range field.shape.dims.prod).map (field.elementWords words)).mapM
        field.type.decodeWords
      let nested ← NdArray.reshape elements field.shape.dims
      return .array nested
  | toNumbers =>
      match field.type.primitive? with
      | none => .ok (.numbers [])
      | some primitive => .ok (.numbers (words.map primitive.ofWord))

/-- The words of a field after an update that succeeds. -/
def Update.apply (field : Field) (words : List Word) : Update → List Word
  | write patch offset => overwrite (offset.getD 0 / wordBytes) patch words
  | set indices value =>
      match field.type.encodeWords value with
      | .ok patch =>
          let position := Shape.rowMajor indices field.shape.dims
          overwrite (position * field.type.slotCount) patch words
      | .error _ => words
  | fromArray nested =>
      match nested.flatten field.shape.dims >>= Field.encodeElements field.type with
      | .ok all => all
      | .error _ => words
  | fromNumbers numbers =>
      match field.type.primitive? with
      | some primitive => numbers.map primitive.toWord
      | none => words

/-- The words of all fields after a command that has ended in a given way. -/
def changed (fields : List Field) (contents : List (List Word)) :
    Command → Outcome FieldError Reply → List (List Word)
  | _, .ok (.field field) => contents ++ [List.replicate field.wordCount 0]
  | .update number change, .ok _ =>
      match fields[number]? with
      | some field => contents.modify number fun words => change.apply field words
      | none => contents
  | _, _ => contents

/-- The words of all fields after a run, told from how its commands end. -/
def Ledger.contents : Ledger → List (List Word) → List Command → List (List Word)
  | _, contents, [] => contents
  | ledger, contents, command :: rest =>
      (ledger.step command).contents
        (changed ledger.fields contents command (ledger.outcome command)) rest

/-- A command that writes neither into the memory directly nor into a field of another program. -/
def Command.Quiet : Command → Prop
  | updateForeign _ _ | writeRegion _ _ _ => False
  | _ => True

/-! ### Updates -/

theorem Field.byteRange_eq_ok {field : Field} {indices : List Nat} {offset length : Nat}
    (h : field.byteRange indices = .ok (offset, length)) :
    offset = Shape.rowMajor indices field.shape.dims * field.type.slotCount * wordBytes ∧
      length = field.type.slotCount * wordBytes ∧
      Shape.rowMajor indices field.shape.dims < field.shape.dims.prod := by
  rw [byteRange, bind_eq_ok] at h
  obtain ⟨flat, hflat, h⟩ := h
  rw [bind_eq_ok] at h
  obtain ⟨width, hwidth, h⟩ := h
  rw [bind_eq_ok] at h
  obtain ⟨product, hproduct, h⟩ := h
  cases h
  obtain ⟨rfl, hlt⟩ := Shape.flatIndex_eq_ok hflat
  obtain ⟨rfl, -⟩ := ElementType.byteSize_eq_ok hwidth
  obtain ⟨rfl, -⟩ := Size.mul_eq_ok_iff.mp hproduct
  exact ⟨(Nat.mul_assoc ..).symm, rfl, hlt⟩

theorem Field.length_of_encodeElements {ty : ElementType} :
    ∀ {values : List Value} {words : List Word}, encodeElements ty values = .ok words →
      words.length = values.length * ty.slotCount := by
  intro values
  induction values with
  | nil =>
      intro words h
      cases h
      simp
  | cons value values ih =>
      intro words h
      rw [encodeElements, bind_eq_ok] at h
      obtain ⟨first, hfirst, h⟩ := h
      rw [bind_eq_ok] at h
      obtain ⟨rest, hrest, h⟩ := h
      cases h
      rw [List.length_append, ElementType.length_of_encodeWords hfirst, ih hrest, List.length_cons,
        Nat.succ_mul, Nat.add_comm]

/-- What an update hands to the field makes of its words what the update says. -/
theorem overwrite_payload {field : Field} {change : Update} {patch words : List Word}
    {offset : Option Nat} (hpayload : change.payload field = .ok (patch, offset))
    (hsize : field.size = field.wordCount * wordBytes) (hwords : words.length = field.wordCount) :
    overwrite (offset.getD 0 / wordBytes) patch words = change.apply field words := by
  cases change with
  | write patch' offset' =>
      cases hpayload
      rfl
  | set indices value =>
      rw [Update.payload, bind_eq_ok] at hpayload
      obtain ⟨⟨start, count⟩, hrange, hpayload⟩ := hpayload
      rw [bind_eq_ok] at hpayload
      obtain ⟨patch', hencode, hpayload⟩ := hpayload
      cases hpayload
      obtain ⟨rfl, -, -⟩ := Field.byteRange_eq_ok hrange
      rw [Update.apply, hencode, Option.getD_some, Nat.mul_div_cancel _ wordBytes_pos]
  | fromArray nested =>
      rw [Update.payload, bind_eq_ok] at hpayload
      obtain ⟨elements, hflatten, hpayload⟩ := hpayload
      rw [bind_eq_ok] at hpayload
      obtain ⟨patch', hencode, hpayload⟩ := hpayload
      cases hpayload
      have hlen : patch.length = words.length := by
        rw [Field.length_of_encodeElements hencode, NdArray.length_of_flatten hflatten, hwords,
          Field.wordCount]
      have hboth : (nested.flatten field.shape.dims >>= Field.encodeElements field.type)
          = .ok patch := bind_eq_ok.mpr ⟨elements, hflatten, hencode⟩
      rw [Update.apply, hboth]
      exact overwrite_whole hlen
  | fromNumbers numbers =>
      rw [Update.payload] at hpayload
      cases hprimitive : field.type.primitive? with
      | none =>
          rw [hprimitive] at hpayload
          cases hpayload
      | some primitive =>
          simp only [hprimitive] at hpayload
          by_cases hne : numbers.length * wordBytes ≠ field.size
          · rw [if_pos hne] at hpayload
            cases hpayload
          · rw [if_neg hne] at hpayload
            cases hpayload
            have hlen : (numbers.map primitive.toWord).length = words.length := by
              have heq := Decidable.not_not.mp hne
              rw [hsize] at heq
              rw [List.length_map, hwords]
              exact Nat.eq_of_mul_eq_mul_right wordBytes_pos heq
            rw [Update.apply, hprimitive]
            exact overwrite_whole hlen

/-! ### Queries -/

/-- A reply on a host is the answer that the words of the field give. -/
theorem answer_of_replies {fields : List Field} {host : Host} {field : Field} {request : Query}
    {reply : Reply} (h : Placed fields host) (hmem : field ∈ fields)
    (hreplies : request.Replies field host reply) :
    request.answer field (host.held field) = .ok reply := by
  have hlen := Host.length_held h hmem
  cases request with
  | read offset length =>
      obtain ⟨lanes, hreads, rfl⟩ := hreplies
      rw [Host.lanes_of_reads h hmem hreads]
      rfl
  | get indices =>
      obtain ⟨offset, length, lanes, value, hrange, hreads, hvalue, rfl⟩ := hreplies
      obtain ⟨rfl, rfl, -⟩ := Field.byteRange_eq_ok hrange
      have hlanes := Host.lanes_of_reads h hmem hreads
      rw [Option.getD_some, Option.getD_some, Nat.mul_div_cancel _ wordBytes_pos,
        Nat.mul_div_cancel _ wordBytes_pos] at hlanes
      have hdecode : field.type.decodeWords (field.elementWords (host.held field)
          (Shape.rowMajor indices field.shape.dims)) = .ok value := by
        rw [ElementType.decodeWords, Field.elementWords, ← hlanes, hvalue]
      simp only [Query.answer, hdecode, bind, Except.bind]
      rfl
  | toArray =>
      obtain ⟨lanes, elements, nested, hreads, helements, hnested, rfl⟩ := hreplies
      obtain ⟨hcheck, hfits⟩ := h.valid field hmem
      rw [Host.lanes_of_reads_whole h hmem hreads,
        ElementType.decodeAll_ofWords (ElementType.slotCount_pos hcheck) hfits hlen] at helements
      have hall : ((List.range field.shape.dims.prod).map
          (field.elementWords (host.held field))).mapM field.type.decodeWords = .ok elements :=
        helements
      simp only [Query.answer, hall, hnested, bind, Except.bind]
      rfl
  | toNumbers =>
      unfold Query.Replies at hreplies
      unfold Query.answer
      cases hprimitive : field.type.primitive? with
      | none =>
          rw [hprimitive] at hreplies
          rw [hreplies]
      | some primitive =>
          rw [hprimitive] at hreplies
          obtain ⟨lanes, hreads, rfl⟩ := hreplies
          rw [Host.lanes_of_reads_whole h hmem hreads, Lanes.numbers_ofWords]

/-! ### Steps and runs -/

/-- A command that adds no field and updates none changes no words. -/
theorem changed_of_none {fields : List Field} {command : Command}
    {outcome : Outcome FieldError Reply} (contents : List (List Word))
    (hnone : Ledger.declared outcome = [])
    (hno : ∀ number change, command = .update number change →
      fields[number]? = none ∨ ∃ failure, outcome = .error failure) :
    changed fields contents command outcome = contents := by
  cases outcome with
  | error failure => cases command <;> rfl
  | ok reply =>
      cases command with
      | update number change =>
          rcases hno number change rfl with hfield | ⟨failure, hc⟩
          · cases reply with
            | field field => cases hnone
            | _ => simp only [changed, hfield]
          · cases hc
      | _ =>
          cases reply with
          | field field => cases hnone
          | _ => rfl

/-- An update that has written its words changes what its field holds, and no other field. -/
theorem changed_of_writes {fields : List Field} {host before host' : Host} {number : Nat}
    {change : Update} {field : Field} {words : List Word} {offset : Option Nat}
    (h : Placed fields host) (hfield : fields[number]? = some field)
    (hpayload : change.payload field = .ok (words, offset))
    (hkept : Host.Kept fields host before) (hwrites : field.Writes words offset before host') :
    changed fields (fields.map host.held) (.update number change) (.ok .done)
      = fields.map host'.held := by
  have hmem := List.mem_of_getElem? hfield
  have hbefore : ∀ other ∈ fields, before.held other = host.held other :=
    fun other hother => Host.held_of_grown h hkept.grown hother
  obtain ⟨hself, hothers⟩ := Host.held_of_writes hkept.placed hfield hwrites
  obtain ⟨-, -, -, hsize, -⟩ := h.place hmem
  rw [overwrite_payload hpayload hsize (Host.length_held hkept.placed hmem),
    hbefore field hmem] at hself
  have hchanged : changed fields (fields.map host.held) (.update number change) (.ok .done)
      = (fields.map host.held).modify number fun words => change.apply field words := by
    simp only [changed, hfield]
  rw [hchanged]
  apply List.ext_getElem?
  intro index
  rw [List.getElem?_modify, List.getElem?_map, List.getElem?_map]
  cases hindex : fields[index]? with
  | none => rfl
  | some other =>
      by_cases heq : number = index
      · subst heq
        cases hfield.symm.trans hindex
        simp [hself]
      · have hother : other ∈ fields := List.mem_of_getElem? hindex
        simp [heq, hothers index other hindex fun hc => heq hc.symm, hbefore other hother]

/-- One step changes what the fields hold as the command says. -/
theorem Effect.changed {fields : List Field} {host host' : Host} {command : Command}
    {outcome : Outcome FieldError Reply} (heffect : Effect fields host command outcome host')
    (h : Placed fields host) (hquiet : command.Quiet) :
    changed fields (fields.map host.held) command outcome
      = (fields ++ Ledger.declared outcome).map host'.held := by
  cases heffect with
  | declared hdeclare =>
      obtain ⟨hold, hnew⟩ := Host.held_declare h hdeclare
      rw [Ledger.declared, List.map_append, List.map_singleton, hnew,
        List.map_congr_left fun field _ => hold field]
      rfl
  | wrote hfield hpayload hkept hwrites =>
      have hnone : Ledger.declared (.ok .done) = [] := rfl
      rw [hnone, List.append_nil]
      exact changed_of_writes h hfield hpayload hkept hwrites
  | wroteForeign => exact hquiet.elim
  | wroteRegion => exact hquiet.elim
  | kept hkept hnone hno =>
      rw [hnone, List.append_nil,
        List.map_congr_left fun field hmem => Host.held_of_grown h hkept.grown hmem]
      exact changed_of_none _ hnone hno

namespace Ledger

/-- The lists of words are what the fields hold. -/
theorem contents_eq :
    ∀ (commands : List Command) {ledger : Ledger}, Placed ledger.fields ledger.host →
      (∀ command ∈ commands, command.Quiet) →
        ledger.contents (ledger.fields.map ledger.host.held) commands
          = (ledger.after commands).fields.map (ledger.after commands).host.held := by
  intro commands
  induction commands with
  | nil => intro ledger _ _; rfl
  | cons command rest ih =>
      intro ledger h hquiet
      have hstep := (effect_of_run command h).changed h (hquiet command List.mem_cons_self)
      have hrest := ih (stays_step command h).placed
        fun command' hmem => hquiet command' (List.mem_cons_of_mem _ hmem)
      calc ledger.contents (ledger.fields.map ledger.host.held) (command :: rest)
          = (ledger.step command).contents
              ((ledger.step command).fields.map (ledger.step command).host.held) rest :=
            congrArg (fun contents => (ledger.step command).contents contents rest) hstep
        _ = _ := hrest

/-- A field keeps its number. -/
theorem getElem?_fields_after {number : Nat} {field : Field} :
    ∀ (commands : List Command) {ledger : Ledger}, ledger.fields[number]? = some field →
      (ledger.after commands).fields[number]? = some field := by
  intro commands
  induction commands with
  | nil => intro ledger h; exact h
  | cons command rest ih =>
      intro ledger h
      refine ih ?_
      obtain ⟨hlt, -⟩ := List.getElem?_eq_some_iff.mp h
      show (ledger.fields ++ _)[number]? = some field
      rw [List.getElem?_append_left hlt, h]

/-- Only a write to a field changes its list. -/
theorem getElem?_changed {fields : List Field} {contents : List (List Word)} {number : Nat}
    {words : List Word} {command : Command} {outcome : Outcome FieldError Reply}
    (h : contents[number]? = some words) (hno : ∀ change, command ≠ .update number change) :
    (changed fields contents command outcome)[number]? = some words := by
  have hadded : ∀ field : Field,
      (contents ++ [List.replicate field.wordCount 0])[number]? = some words := by
    intro field
    obtain ⟨hlt, -⟩ := List.getElem?_eq_some_iff.mp h
    rw [List.getElem?_append_left hlt, h]
  cases outcome with
  | error failure => cases command <;> exact h
  | ok reply =>
      cases command with
      | update other change =>
          have hne : other ≠ number := fun heq => hno change (heq ▸ rfl)
          have hmodified : ∀ field : Field, (contents.modify other fun words =>
              change.apply field words)[number]? = some words := by
            intro field
            rw [List.getElem?_modify_ne _ _ hne, h]
          cases reply with
          | field field => exact hadded field
          | _ =>
              cases hfield : fields[other]? with
              | none =>
                  simp only [changed, hfield]
                  exact h
              | some field =>
                  simp only [changed, hfield]
                  exact hmodified field
      | _ =>
          cases reply with
          | field field => exact hadded field
          | _ => exact h

theorem getElem?_contents {number : Nat} {words : List Word} :
    ∀ (commands : List Command) {ledger : Ledger} {contents : List (List Word)},
      contents[number]? = some words → (∀ change, .update number change ∉ commands) →
        (ledger.contents contents commands)[number]? = some words := by
  intro commands
  induction commands with
  | nil => intro ledger contents h _; exact h
  | cons command rest ih =>
      intro ledger contents h hno
      refine ih (getElem?_changed h ?_) fun change hmem => hno change (List.mem_cons_of_mem _ hmem)
      rintro change rfl
      exact hno change List.mem_cons_self

/-- The words of a field after one step, told from the change of all of them. -/
theorem getElem?_changed_step {ledger : Ledger} {number : Nat} {field : Field}
    (command : Command) (h : Placed ledger.fields ledger.host) (hquiet : command.Quiet)
    (hfield : ledger.fields[number]? = some field) :
    (changed ledger.fields (ledger.fields.map ledger.host.held) command
      (ledger.outcome command))[number]? = some ((ledger.step command).host.held field) := by
  have hchanged : changed ledger.fields (ledger.fields.map ledger.host.held) command
      (ledger.outcome command) = (ledger.step command).fields.map (ledger.step command).host.held :=
    (effect_of_run command h).changed h hquiet
  have hfield' : (ledger.step command).fields[number]? = some field :=
    getElem?_fields_after [command] hfield
  rw [hchanged, List.getElem?_map, hfield']
  rfl

/-- An update that succeeds changes the words of its field as it says. -/
theorem held_step_update {ledger : Ledger} {number : Nat} {field : Field} {change : Update}
    (h : Placed ledger.fields ledger.host) (hfield : ledger.fields[number]? = some field)
    (hdone : ledger.outcome (.update number change) = .ok .done) :
    (ledger.step (.update number change)).host.held field
      = change.apply field (ledger.host.held field) := by
  have hstep := getElem?_changed_step (.update number change) h trivial hfield
  simp only [hdone, changed, hfield, List.getElem?_modify, List.getElem?_map] at hstep
  simpa using hstep.symm

/-- Nothing else changes them, and neither does an update that fails. -/
theorem held_step {ledger : Ledger} {number : Nat} {field : Field} {command : Command}
    (h : Placed ledger.fields ledger.host) (hquiet : command.Quiet)
    (hfield : ledger.fields[number]? = some field)
    (hno : ∀ change, command = .update number change →
      ¬ ∃ reply, ledger.outcome command = .ok reply) :
    (ledger.step command).host.held field = ledger.host.held field := by
  have hold : (ledger.fields.map ledger.host.held)[number]? = some (ledger.host.held field) := by
    rw [List.getElem?_map, hfield]
    rfl
  have hstep := getElem?_changed_step command h hquiet hfield
  by_cases hupdate : ∃ change, command = .update number change
  · obtain ⟨change, rfl⟩ := hupdate
    cases houtcome : ledger.outcome (.update number change) with
    | ok reply => exact absurd ⟨reply, houtcome⟩ (hno change rfl)
    | error failure =>
        rw [houtcome] at hstep
        exact (Option.some.inj (hold.symm.trans hstep)).symm
  · rw [getElem?_changed hold fun change hc => hupdate ⟨change, hc⟩] at hstep
    exact (Option.some.inj hstep).symm

/-- A query that is answered is answered from the words of its field. -/
theorem answer_of_outcome {ledger : Ledger} {number : Nat} {field : Field} {request : Query}
    {reply : Reply} (h : Placed ledger.fields ledger.host)
    (hfield : ledger.fields[number]? = some field)
    (hreply : ledger.outcome (.query number request) = .ok reply) :
    request.answer field (ledger.host.held field) = .ok reply := by
  have hmem := List.mem_of_getElem? hfield
  have hends : Host.Ends ((Command.query number request).run ledger.fields) ledger.host
      (fun reply _ => request.answer field (ledger.host.held field) = .ok reply)
      (fun _ _ => True) := by
    simp only [Command.run, hfield]
    refine Host.ends_mono (ends_query request h) ?_ fun _ _ _ => trivial
    intro reply host' hend
    obtain ⟨hkept, hreplies⟩ := hend
    rw [← Host.held_of_grown h hkept.grown hmem]
    exact answer_of_replies hkept.placed hmem hreplies
  obtain ⟨-, hanswer⟩ := Host.of_outcome hends hreply
  exact hanswer

/-- **A program reads like one independent list of words per field.**  At any point of a run
without writes from elsewhere, a query that succeeds gives the answer of the words that were
written to its field so far, zeros where there were none.  So whatever is declared, materialized,
read or written elsewhere, successfully or not, two successful reads of a field without a write
to it in between give the same. -/
theorem outcome_eq_answer (limit : Option Nat) (nextId : Nat) (history more : List Command)
    (hquiet : ∀ command ∈ history ++ more, command.Quiet) :
    let begin := start limit nextId
    let now := begin.after history
    let later := now.after more
    (∀ (number : Nat) (field : Field), now.fields[number]? = some field →
      ∃ words, (begin.contents [] history)[number]? = some words ∧
        words.length = field.wordCount ∧
        ∀ request reply, now.outcome (.query number request) = .ok reply →
          request.answer field words = .ok reply) ∧
    (∀ (number : Nat) (request : Query) (reply reply' : Reply), number < now.fields.length →
      (∀ change, .update number change ∉ more) →
        now.outcome (.query number request) = .ok reply →
          later.outcome (.query number request) = .ok reply' → reply' = reply) := by
  intro begin now later
  have hplaced := (stays_after history (placed_start limit nextId)).placed
  have hplaced' := (stays_after more hplaced).placed
  have hcontents : begin.contents [] history = now.fields.map now.host.held :=
    contents_eq history (placed_start limit nextId)
      fun command hmem => hquiet command (List.mem_append_left _ hmem)
  have hcontents' : now.contents (now.fields.map now.host.held) more
      = later.fields.map later.host.held :=
    contents_eq more hplaced fun command hmem => hquiet command (List.mem_append_right _ hmem)
  constructor
  · intro number field hfield
    refine ⟨now.host.held field, by rw [hcontents, List.getElem?_map, hfield]; rfl,
      Host.length_held hplaced (List.mem_of_getElem? hfield), ?_⟩
    intro request reply hreply
    exact answer_of_outcome hplaced hfield hreply
  · intro number request reply reply' hlt hno hreply hreply'
    have hfield : now.fields[number]? = some now.fields[number] := List.getElem?_eq_getElem hlt
    have hfield' := getElem?_fields_after more hfield
    -- The words of the field are the same at both points.
    have hbefore : (now.fields.map now.host.held)[number]?
        = some (now.host.held now.fields[number]) := by
      rw [List.getElem?_map, hfield]
      rfl
    have hafter : (now.contents (now.fields.map now.host.held) more)[number]?
        = some (now.host.held now.fields[number]) := getElem?_contents more hbefore hno
    rw [hcontents', List.getElem?_map, hfield'] at hafter
    have hsame : later.host.held now.fields[number] = now.host.held now.fields[number] :=
      Option.some.inj hafter
    have hanswer := answer_of_outcome hplaced hfield hreply
    have hanswer' := answer_of_outcome hplaced' hfield' hreply'
    rw [hsame, hanswer] at hanswer'
    exact (Except.ok.inj hanswer').symm

/-- Two fields share a tree, a third one is declared after the tree was closed.  Neither writing
the neighbour nor writing the newcomer shows in the first. -/
theorem outcome_eq_answer_neighbours :
    let history : List Command := [.declare (.scalar .i32) [2], .declare (.vector .f32 2) [1],
      .update 0 (.write [7] (some 4))]
    let more : List Command := [.declare (.scalar .f32) [1], .update 1 (.write [1, 2] none),
      .update 2 (.write [3] none)]
    let now := (start none 0).after history
    let whole : Command := .query 0 (.read none none)
    (∀ command ∈ history ++ more, command.Quiet) ∧ (∀ change, .update 0 change ∉ more) ∧
      0 < now.fields.length ∧ now.outcome whole = .ok (.lanes (Lanes.ofWords [0, 7])) ∧
      ∀ reply, (now.after more).outcome whole = .ok reply →
        reply = .lanes (Lanes.ofWords [0, 7]) := by
  intro history more now whole
  have hquiet : ∀ command ∈ history ++ more, command.Quiet := by
    simp [history, more, Command.Quiet]
  have hno : ∀ change, .update 0 change ∉ more := by simp [more]
  have hdeclared : 0 < now.fields.length := by decide
  have hreply : now.outcome whole = .ok (.lanes (Lanes.ofWords [0, 7])) := rfl
  refine ⟨hquiet, hno, hdeclared, hreply, ?_⟩
  intro reply hlater
  exact (outcome_eq_answer none 0 history more hquiet).2 0 (.read none none) _ reply hdeclared hno
    hreply hlater

end Ledger

end FieldStore
