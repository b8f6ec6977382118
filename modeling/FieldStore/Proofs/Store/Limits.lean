/-
Raising the limit of the memory.

Two runs of the same commands, one of them with a larger limit, are the same but for identities
until the first tree is refused in the run with the smaller limit.  From there on they go apart:
trees are closed at different moments, later fields lie in different places, and a tree that has
become long in one run may be refused even by the larger limit.  But the run that was refused is
blocked, so all that it can still do is to use fields that had storage by then, and those have
storage in the other run as well and hold the same words.

`Ahead` says this of two ledgers: whatever has storage in the first has it in the second and holds
the same, and the first is blocked or the two are in step.  A step keeps it, because a request that
succeeds in the first run succeeds in the second with the same reply, and an update of a field with
storage that fails in the first fails in the second as well.
-/
import FieldStore.Proofs.Store.Availability
import FieldStore.Proofs.Store.InStep

namespace FieldStore

/-! ### Requests -/

/-- A command that uses the program and declares nothing.  Identities may be drawn elsewhere in
between. -/
def Command.IsUse : Command → Prop
  | materialize | query _ _ | update _ _ | drawId => True
  | _ => False

/-- A command on the program and its own fields. -/
def Command.Own : Command → Prop
  | declare _ _ => True
  | command => command.IsUse

theorem Command.IsUse.quiet {command : Command} (h : command.IsUse) : command.Quiet := by
  cases command with
  | materialize | query | update | drawId => trivial
  | declare | queryForeign | updateForeign | allocate | readRegion | writeRegion => exact h.elim

/-- A use of the program is granted what it wants or denied. -/
theorem Command.IsUse.ends_demand {fields : List Field} {host : Host} {command : Command}
    (huse : command.IsUse) (h : Placed fields host) :
    Host.Ends (command.run fields) host
      (fun _ host' => Granted (command.demand fields) host (command.target fields) host')
      (Denied (command.demand fields) host (command.target fields)) := by
  cases command with
  | materialize | query | update | drawId => exact Command.ends_demand h trivial nofun
  | declare | queryForeign | updateForeign | allocate | readRegion | writeRegion => exact huse.elim

theorem Effect.declared_eq_nil {fields : List Field} {host host' : Host} {command : Command}
    {outcome : Outcome FieldError Reply} (h : Effect fields host command outcome host')
    (huse : command.IsUse) : Ledger.declared outcome = [] := by
  cases h with
  | declared => exact huse.elim
  | wrote | wroteForeign | wroteRegion => rfl
  | kept _ hnone _ => exact hnone

namespace Ledger

variable {ledger ledger' : Ledger} {number : Nat} {field field' : Field} {command : Command}

theorem fields_step (h : Placed ledger.fields ledger.host) (huse : command.IsUse) :
    (ledger.step command).fields = ledger.fields := by
  rw [step, outcome, (effect_of_run command h).declared_eq_nil huse, List.append_nil]

theorem granted_or_denied (h : Placed ledger.fields ledger.host) (huse : command.IsUse) :
    Granted (command.demand ledger.fields) ledger.host (command.target ledger.fields)
        (ledger.step command).host ∨
      ∃ failure, Denied (command.demand ledger.fields) ledger.host
        (command.target ledger.fields) failure (ledger.step command).host := by
  rcases Host.runs_of_ends (huse.ends_demand h) with
    ⟨reply, host', hrun, hgranted⟩ | ⟨failure, host', hrun, hdenied⟩
  · rw [step, hrun]
    exact Or.inl hgranted
  · rw [step, hrun]
    exact Or.inr ⟨failure, hdenied⟩

theorem limit_step (h : Placed ledger.fields ledger.host) (huse : command.IsUse) :
    (ledger.step command).host.memory.limit = ledger.host.memory.limit := by
  rcases granted_or_denied h huse with hgranted | ⟨failure, hdenied⟩
  · exact hgranted.limit
  · exact hdenied.limit

theorem grants_step {size : Nat} (h : Placed ledger.fields ledger.host) (huse : command.IsUse) :
    (ledger.step command).host.memory.Grants size ↔ ledger.host.memory.Grants size := by
  rw [HostMemory.Grants, HostMemory.Grants, limit_step h huse]

theorem idle_step (h : Placed ledger.fields ledger.host) (huse : command.IsUse)
    (hblocked : ledger.host.Blocked) : ledger.host.Idle (ledger.step command).host := by
  rcases granted_or_denied h huse with hgranted | ⟨failure, hdenied⟩
  · exact hgranted.idle hblocked
  · exact hdenied.idle hblocked

theorem settled_step (h : Placed ledger.fields ledger.host) (huse : command.IsUse)
    (hgrants : ledger.host.GrantsAll) :
    Settled (command.demand ledger.fields) ledger.host (command.target ledger.fields)
      (ledger.step command).host := by
  rcases granted_or_denied h huse with hgranted | ⟨failure, hdenied⟩
  · exact hgranted.settled
  · exact hdenied.settled hgrants

/-- A field with storage after a use of the program was served before. -/
theorem serves_of_step (h : Placed ledger.fields ledger.host) (huse : command.IsUse)
    (hstored : (ledger.step command).host.program.isMaterialized field.tree = true)
    (hcases : ledger.host.Blocked ∨ ledger.host.GrantsAll) : ledger.host.Serves field.tree := by
  rcases hcases with hblocked | hgrants
  · rw [Program.isMaterialized, (idle_step h huse hblocked).storage?] at hstored
    exact Or.inl hstored
  · exact Or.inr hgrants

/-- What has storage keeps it. -/
theorem isMaterialized_step {tree : Nat} (h : Placed ledger.fields ledger.host)
    (hstored : ledger.host.program.isMaterialized tree = true) :
    (ledger.step command).host.program.isMaterialized tree = true := by
  cases hget : ledger.host.program.trees[tree]? with
  | none =>
      rw [Program.isMaterialized, Program.storage?, hget] at hstored
      cases hstored
  | some kept =>
      rw [Program.isMaterialized, Host.storage?_of_get hget] at hstored
      have hget' := (stays_step command h).lasting tree kept hget hstored
      rw [Program.isMaterialized, Host.storage?_of_get hget']
      exact hstored

/-- An update has nothing to tell. -/
theorem reply_of_update {change : Update} {reply : Reply}
    (h : ledger.outcome (.update number change) = .ok reply) : reply = .done := by
  cases hfield : ledger.fields[number]? with
  | none =>
      simp only [outcome, Command.run, hfield] at h
      cases h
      rfl
  | some field =>
      simp only [outcome, Command.run, hfield] at h
      exact Host.of_then_pure h

/-! ### Two runs -/

/-- The two programs differ in identities only, and nothing has been refused so far. -/
structure InStep (ledger ledger' : Ledger) : Prop where
  fields : ledger'.fields = ledger.fields
  outline : ledger.host.program.outline = ledger'.host.program.outline
  prompt : ledger.host.Prompt

/-- While everything is granted the trees stay the same but for identities. -/
theorem InStep.outline_step (h : InStep ledger ledger') (hplaced : Placed ledger.fields ledger.host)
    (hplaced' : Placed ledger'.fields ledger'.host) (huse : command.IsUse)
    (hgrants : ledger.host.GrantsAll) (hgrants' : ledger'.host.GrantsAll) :
    (ledger.step command).host.program.outline = (ledger'.step command).host.program.outline := by
  have hsettled' := settled_step hplaced' huse hgrants'
  rw [h.fields] at hsettled'
  exact outline_of_settled h.outline (settled_step hplaced huse hgrants) hsettled'

/-- The second ledger has come at least as far as the first. -/
structure Ahead (ledger ledger' : Ledger) : Prop where
  placed : Placed ledger.fields ledger.host
  placed' : Placed ledger'.fields ledger'.host
  larger : ∀ size, ledger.host.memory.Grants size → ledger'.host.memory.Grants size
  length : ledger'.fields.length = ledger.fields.length
  alike : ∀ (number : Nat) (field field' : Field), ledger.fields[number]? = some field →
    ledger'.fields[number]? = some field' → Alike field field'
  /-- What has storage here has storage there, and the words are the same. -/
  kept : ∀ (number : Nat) (field field' : Field), ledger.fields[number]? = some field →
    ledger'.fields[number]? = some field' →
      ledger.host.program.isMaterialized field.tree = true →
        ledger'.host.program.isMaterialized field'.tree = true ∧
          ledger'.host.held field' = ledger.host.held field
  pace : ledger.host.Blocked ∨ InStep ledger ledger'

namespace Ahead

theorem exists_field (h : Ahead ledger ledger') (hfield : ledger.fields[number]? = some field) :
    ∃ field', ledger'.fields[number]? = some field' := by
  obtain ⟨hlt, -⟩ := List.getElem?_eq_some_iff.mp hfield
  exact ⟨_, List.getElem?_eq_getElem (h.length ▸ hlt)⟩

theorem no_field (h : Ahead ledger ledger') (hfield : ledger.fields[number]? = none) :
    ledger'.fields[number]? = none := by
  rw [List.getElem?_eq_none_iff] at hfield ⊢
  exact h.length ▸ hfield

/-- Unless the first ledger is blocked, both grant all storage that is wanted. -/
theorem blocked_or_inStep (h : Ahead ledger ledger') :
    ledger.host.Blocked ∨
      InStep ledger ledger' ∧ ledger.host.GrantsAll ∧ ledger'.host.GrantsAll := by
  rcases h.pace with hblocked | hstep
  · exact Or.inl hblocked
  · rcases hstep.prompt.grantsAll_or_blocked h.placed with hgrants | hblocked
    · refine Or.inr ⟨hstep, hgrants, ?_⟩
      intro entry hmem
      rw [← Program.pending_of_outline hstep.outline] at hmem
      exact h.larger entry.2 (hgrants entry hmem)
    · exact Or.inl hblocked

theorem inStep_of_grantsAll (h : Ahead ledger ledger') (hgrants : ledger.host.GrantsAll) :
    InStep ledger ledger' ∧ ledger'.host.GrantsAll := by
  rcases h.blocked_or_inStep with hblocked | ⟨hstep, -, hgrants'⟩
  · exact absurd hgrants hblocked.not_grantsAll
  · exact ⟨hstep, hgrants'⟩

/-- A tree that is served in the first run is served in the second. -/
theorem serves (h : Ahead ledger ledger') (hfield : ledger.fields[number]? = some field)
    (hfield' : ledger'.fields[number]? = some field') (hserves : ledger.host.Serves field.tree) :
    ledger'.host.Serves field'.tree := by
  rcases hserves with hstored | hgrants
  · exact Or.inl (h.kept number field field' hfield hfield' hstored).1
  · exact Or.inr (h.inStep_of_grantsAll hgrants).2

/-- And its fields hold the same words. -/
theorem held (h : Ahead ledger ledger') (hfield : ledger.fields[number]? = some field)
    (hfield' : ledger'.fields[number]? = some field') (hserves : ledger.host.Serves field.tree) :
    ledger'.host.held field' = ledger.host.held field := by
  cases hstored : ledger.host.program.isMaterialized field.tree with
  | true => exact (h.kept number field field' hfield hfield' hstored).2
  | false =>
      -- Without storage both hold zeros.
      have hgrants : ledger.host.GrantsAll := by
        refine hserves.resolve_left fun hc => ?_
        rw [hstored] at hc
        cases hc
      obtain ⟨hstep, -⟩ := h.inStep_of_grantsAll hgrants
      rw [hstep.fields, hfield] at hfield'
      cases hfield'
      have hstored' := hstored
      rw [Program.isMaterialized_of_outline hstep.outline] at hstored'
      rw [Host.held_of_not_materialized hstored, Host.held_of_not_materialized hstored']

/-! ### The same reply -/

/-- **A query that is answered in the first run is answered in the second, and in the same way.** -/
theorem outcome_query {request : Query} {reply : Reply} (h : Ahead ledger ledger')
    (hreply : ledger.outcome (.query number request) = .ok reply) :
    ledger'.outcome (.query number request) = .ok reply := by
  cases hfield : ledger.fields[number]? with
  | none =>
      simp only [outcome, Command.run, hfield] at hreply
      simp only [outcome, Command.run, h.no_field hfield]
      exact hreply
  | some field =>
      obtain ⟨field', hfield'⟩ := h.exists_field hfield
      have halike := h.alike number field field' hfield hfield'
      rcases valid_of_query h.placed hfield hreply with hvalid | ⟨rfl, hprimitive⟩
      · have hserved := (query_succeeds_iff request h.placed hfield hvalid).mp ⟨reply, hreply⟩
        have hboth : ledger.host.Serves field.tree ∧ request.Served ledger'.host field' := by
          cases request with
          | toArray => exact ⟨Or.inr hserved, (h.inStep_of_grantsAll hserved).2⟩
          | read | get | toNumbers => exact ⟨hserved, h.serves hfield hfield' hserved⟩
        obtain ⟨hserves, hserved'⟩ := hboth
        obtain ⟨reply', hreply'⟩ :=
          (query_succeeds_iff request h.placed' hfield' (halike.valid_iff.mpr hvalid)).mpr hserved'
        -- Both replies are read from the same words.
        have hanswer := answer_of_outcome h.placed hfield hreply
        have hanswer' := answer_of_outcome h.placed' hfield' hreply'
        rw [halike.answer_eq, h.held hfield hfield' hserves, hanswer] at hanswer'
        rw [hreply', hanswer']
      · rw [outcome_numbers_of_struct hfield hprimitive] at hreply
        rw [outcome_numbers_of_struct hfield' (halike.type ▸ hprimitive), hreply]

/-- An update of a field that is served in the first run succeeds in both or in neither. -/
theorem update_iff {change : Update} (h : Ahead ledger ledger')
    (hfield : ledger.fields[number]? = some field)
    (hfield' : ledger'.fields[number]? = some field') (hserves : ledger.host.Serves field.tree) :
    (∃ reply, ledger'.outcome (.update number change) = .ok reply) ↔
      ∃ reply, ledger.outcome (.update number change) = .ok reply := by
  have halike := h.alike number field field' hfield hfield'
  have hserves' := h.serves hfield hfield' hserves
  rw [update_succeeds_iff_covers change h.placed hfield,
    update_succeeds_iff_covers change h.placed' hfield', halike.payload_eq]
  simp only [halike.covers_iff, hserves, hserves']

theorem outcome_update {change : Update} {reply : Reply} (h : Ahead ledger ledger')
    (hreply : ledger.outcome (.update number change) = .ok reply) :
    ledger'.outcome (.update number change) = .ok reply := by
  cases hfield : ledger.fields[number]? with
  | none =>
      simp only [outcome, Command.run, hfield] at hreply
      simp only [outcome, Command.run, h.no_field hfield]
      exact hreply
  | some field =>
      obtain ⟨field', hfield'⟩ := h.exists_field hfield
      have hserves :=
        ((update_succeeds_iff_covers change h.placed hfield).mp ⟨reply, hreply⟩).2
      obtain ⟨reply', hreply'⟩ := (h.update_iff hfield hfield' hserves).mpr ⟨reply, hreply⟩
      rw [hreply', reply_of_update hreply', reply_of_update hreply]

theorem outcome_materialize {reply : Reply} (h : Ahead ledger ledger')
    (hreply : ledger.outcome .materialize = .ok reply) :
    ledger'.outcome .materialize = .ok reply := by
  have hgrants := (materialize_succeeds_iff h.placed).mp ⟨reply, hreply⟩
  obtain ⟨reply', hreply'⟩ :=
    (materialize_succeeds_iff h.placed').mpr (h.inStep_of_grantsAll hgrants).2
  rw [hreply', Host.of_then_pure hreply', Host.of_then_pure hreply]

/-! ### Steps -/

/-- A field that is served in the first run holds the same words in both after a step. -/
theorem held_step (h : Ahead ledger ledger') (huse : command.IsUse)
    (hfield : ledger.fields[number]? = some field)
    (hfield' : ledger'.fields[number]? = some field') (hserves : ledger.host.Serves field.tree) :
    (ledger'.step command).host.held field' = (ledger.step command).host.held field := by
  have halike := h.alike number field field' hfield hfield'
  have hheld := h.held hfield hfield' hserves
  by_cases hwrites : ∃ change, command = .update number change ∧
      ∃ reply, ledger.outcome (.update number change) = .ok reply
  · obtain ⟨change, rfl, reply, hreply⟩ := hwrites
    obtain rfl := reply_of_update hreply
    rw [held_step_update h.placed hfield hreply,
      held_step_update h.placed' hfield' (h.outcome_update hreply), halike.apply_eq, hheld]
  · -- No words of the field change in either run.
    have hno : ∀ change, command = .update number change →
        ¬ ∃ reply, ledger.outcome command = .ok reply := by
      rintro change rfl hreply
      exact hwrites ⟨change, rfl, hreply⟩
    have hno' : ∀ change, command = .update number change →
        ¬ ∃ reply, ledger'.outcome command = .ok reply := by
      rintro change rfl hreply
      exact hno change rfl ((h.update_iff hfield hfield' hserves).mp hreply)
    rw [Ledger.held_step h.placed huse.quiet hfield hno,
      Ledger.held_step h.placed' huse.quiet hfield' hno', hheld]

/-- A field with storage after a step of the first run has storage after the second's. -/
theorem isMaterialized_step (h : Ahead ledger ledger') (huse : command.IsUse)
    (hfield : ledger.fields[number]? = some field)
    (hfield' : ledger'.fields[number]? = some field')
    (hstored : (ledger.step command).host.program.isMaterialized field.tree = true) :
    (ledger'.step command).host.program.isMaterialized field'.tree = true := by
  rcases h.blocked_or_inStep with hblocked | ⟨hstep, hgrants, hgrants'⟩
  · rw [Program.isMaterialized, (idle_step h.placed huse hblocked).storage?] at hstored
    exact Ledger.isMaterialized_step h.placed'
      (h.kept number field field' hfield hfield' hstored).1
  · rw [hstep.fields, hfield] at hfield'
    cases hfield'
    have houtline := hstep.outline_step h.placed h.placed' huse hgrants hgrants'
    rwa [← Program.isMaterialized_of_outline houtline]

/-- **A use of the program keeps the second ledger ahead**, whether it succeeds in both runs, in
the second only or in none. -/
theorem step_use (h : Ahead ledger ledger') (huse : command.IsUse) :
    Ahead (ledger.step command) (ledger'.step command) := by
  have hfields := fields_step h.placed huse
  have hfields' := fields_step h.placed' huse
  refine ⟨(stays_step command h.placed).placed, (stays_step command h.placed').placed, ?_, ?_, ?_,
    ?_, ?_⟩
  · intro size
    rw [grants_step h.placed huse, grants_step h.placed' huse]
    exact h.larger size
  · rw [hfields, hfields', h.length]
  · rw [hfields, hfields']
    exact h.alike
  · rw [hfields, hfields']
    intro number field field' hfield hfield' hstored
    have hserves : ledger.host.Serves field.tree :=
      serves_of_step h.placed huse hstored
        (h.blocked_or_inStep.imp_right fun hstep => hstep.2.1)
    exact ⟨h.isMaterialized_step huse hfield hfield' hstored,
      h.held_step huse hfield hfield' hserves⟩
  · rcases h.blocked_or_inStep with hblocked | ⟨hstep, hgrants, hgrants'⟩
    · exact Or.inl ((idle_step h.placed huse hblocked).blocked (limit_step h.placed huse) hblocked)
    · refine Or.inr ⟨by rw [hfields, hfields', hstep.fields],
        hstep.outline_step h.placed h.placed' huse hgrants hgrants', ?_⟩
      exact (settled_step h.placed huse hgrants).prompt h.placed hstep.prompt

end Ahead

/-- A declaration that succeeds adds one field. -/
theorem step_of_declared {ty : ElementType} {dims : List Nat} {reply : Reply}
    (hreply : ledger.outcome (.declare ty dims) = .ok reply) :
    ∃ field program, ledger.host.program.declare ty dims = .ok (field, program) ∧
      ledger.step (.declare ty dims)
        = ⟨{ ledger.host with program := program }, ledger.fields ++ [field]⟩ := by
  have hends : Host.Ends ((Command.declare ty dims).run ledger.fields) ledger.host
      (fun reply host' => ∃ field program,
        ledger.host.program.declare ty dims = .ok (field, program) ∧ reply = .field field ∧
          host' = { ledger.host with program := program }) (fun _ _ => True) := by
    unfold Command.run
    rw [Host.ends_bind]
    refine Host.ends_declare ?_ fun _ _ => trivial
    intro field program hdeclare
    exact ⟨field, program, hdeclare, rfl, rfl⟩
  rcases Host.runs_of_ends hends with
    ⟨found, host', hrun, field, program, hdeclare, rfl, rfl⟩ | ⟨failure, host', hrun, -⟩
  · refine ⟨field, program, hdeclare, ?_⟩
    rw [step, outcome, hrun]
    rfl
  · rw [outcome, hrun] at hreply
    cases hreply

/-- **A declaration that succeeds in both runs keeps the second ledger ahead.** -/
theorem Ahead.step_declare {ty : ElementType} {dims : List Nat} (h : Ahead ledger ledger')
    (hreply : ∃ reply, ledger.outcome (.declare ty dims) = .ok reply)
    (hreply' : ∃ reply, ledger'.outcome (.declare ty dims) = .ok reply) :
    Ahead (ledger.step (.declare ty dims)) (ledger'.step (.declare ty dims)) := by
  obtain ⟨reply, hreply⟩ := hreply
  obtain ⟨reply', hreply'⟩ := hreply'
  obtain ⟨field, program, hdeclare, hstep⟩ := step_of_declared hreply
  obtain ⟨field', program', hdeclare', hstep'⟩ := step_of_declared hreply'
  obtain ⟨hstorage, hnone⟩ := storage?_declare h.placed.sealed_of_storage hdeclare
  obtain ⟨hstorage', -⟩ := storage?_declare h.placed'.sealed_of_storage hdeclare'
  obtain ⟨hheld, -⟩ := Host.held_declare h.placed hdeclare
  obtain ⟨hheld', -⟩ := Host.held_declare h.placed' hdeclare'
  -- Fields of the same number are both old or both new.
  have hpairs : ∀ (number : Nat) (one one' : Field),
      (ledger.fields ++ [field])[number]? = some one →
      (ledger'.fields ++ [field'])[number]? = some one' →
        (ledger.fields[number]? = some one ∧ ledger'.fields[number]? = some one') ∨
          one = field ∧ one' = field' := by
    intro number one one' hone hone'
    have hlength := h.length
    rcases getElem?_concat_cases hone with hold | ⟨hnumber, hnew⟩
    · obtain ⟨hlt, -⟩ := List.getElem?_eq_some_iff.mp hold
      rcases getElem?_concat_cases hone' with hold' | ⟨hnumber', -⟩
      · exact Or.inl ⟨hold, hold'⟩
      · omega
    · rcases getElem?_concat_cases hone' with hold' | ⟨-, hnew'⟩
      · obtain ⟨hlt, -⟩ := List.getElem?_eq_some_iff.mp hold'
        omega
      · exact Or.inr ⟨hnew, hnew'⟩
  have hplaced := (stays_step (.declare ty dims) h.placed).placed
  have hplaced' := (stays_step (.declare ty dims) h.placed').placed
  rw [hstep] at hplaced ⊢
  rw [hstep'] at hplaced' ⊢
  refine ⟨hplaced, hplaced', h.larger, by simp [h.length], ?_, ?_, ?_⟩
  · intro number one one' hone hone'
    rcases hpairs number one one' hone hone' with ⟨hold, hold'⟩ | ⟨rfl, rfl⟩
    · exact h.alike number one one' hold hold'
    · exact alike_of_declare hdeclare hdeclare'
  · intro number one one' hone hone' hstored
    rw [Program.isMaterialized] at hstored
    rcases hpairs number one one' hone hone' with ⟨hold, hold'⟩ | ⟨rfl, rfl⟩
    · rw [hstorage] at hstored
      rw [Program.isMaterialized, hstorage', hheld, hheld']
      exact h.kept number one one' hold hold' hstored
    · rw [hnone] at hstored
      cases hstored
  · rcases h.pace with hblocked | hboth
    · exact Or.inl (hblocked.declare hdeclare)
    · obtain ⟨rfl, houtline⟩ := outline_declare hboth.outline hdeclare hdeclare'
      exact Or.inr ⟨by rw [hboth.fields], houtline, hboth.prompt.declare hdeclare⟩

/-! ### Runs -/

/-- Whether every declaration of a run succeeds. -/
def Declares : Ledger → List Command → Prop
  | _, [] => True
  | ledger, command :: rest =>
      (∀ ty dims, command = .declare ty dims → ∃ reply, ledger.outcome command = .ok reply) ∧
        (ledger.step command).Declares rest

theorem Ahead.after :
    ∀ (commands : List Command) {ledger ledger' : Ledger}, Ahead ledger ledger' →
      (∀ command ∈ commands, command.Own) → ledger.Declares commands →
        ledger'.Declares commands → Ahead (ledger.after commands) (ledger'.after commands) := by
  intro commands
  induction commands with
  | nil => intro ledger ledger' h _ _ _; exact h
  | cons command rest ih =>
      intro ledger ledger' h hown hdeclares hdeclares'
      refine ih ?_ (fun other hmem => hown other (List.mem_cons_of_mem _ hmem)) hdeclares.2
        hdeclares'.2
      have hcommand := hown command List.mem_cons_self
      cases command with
      | declare ty dims =>
          exact h.step_declare (hdeclares.1 ty dims rfl) (hdeclares'.1 ty dims rfl)
      | materialize | query | update | drawId => exact h.step_use trivial
      | queryForeign | updateForeign | allocate | readRegion | writeRegion => exact hcommand.elim

/-- One limit is at most another.  To have none is to have the largest. -/
def LimitLe : Option Nat → Option Nat → Prop
  | _, none => True
  | none, some _ => False
  | some small, some large => small ≤ large

theorem ahead_start {small large : Option Nat} (nextId nextId' : Nat) (hle : LimitLe small large) :
    Ahead (start small nextId) (start large nextId') := by
  refine ⟨placed_start small nextId, placed_start large nextId', ?_, rfl, ?_, ?_,
    Or.inr ⟨rfl, rfl, nofun⟩⟩
  · intro size hgrants
    obtain ⟨hwithin, hfits⟩ := hgrants
    refine ⟨?_, hfits⟩
    intro limit hlimit
    have hlarge : large = some limit := hlimit
    cases small with
    | none =>
        rw [hlarge] at hle
        exact hle.elim
    | some small =>
        rw [hlarge] at hle
        exact Nat.le_trans (hwithin small rfl) hle
  · intro number field field' hfield
    cases hfield
  · intro number field field' hfield
    cases hfield

/-- **Raising the limit breaks nothing.**  Take any run of declarations, materializations, reads
and writes on the declared fields, under two limits of which the second is at least the first,
such that all declarations succeed in both; other commands may fail in either.  What is then
materialized, read or written with success under the first limit is so under the second, with the
same reply. -/
theorem same_reply_of_limit_le (small large : Option Nat) (hle : LimitLe small large)
    (nextId nextId' : Nat) (history : List Command) (hown : ∀ command ∈ history, command.Own)
    (hdeclares : (start small nextId).Declares history)
    (hdeclares' : (start large nextId').Declares history) :
    let now := (start small nextId).after history
    let now' := (start large nextId').after history
    (∀ reply, now.outcome .materialize = .ok reply → now'.outcome .materialize = .ok reply) ∧
    (∀ number request reply, now.outcome (.query number request) = .ok reply →
      now'.outcome (.query number request) = .ok reply) ∧
    (∀ number change reply, now.outcome (.update number change) = .ok reply →
      now'.outcome (.update number change) = .ok reply) := by
  intro now now'
  have hahead : Ahead now now' :=
    (ahead_start nextId nextId' hle).after history hown hdeclares hdeclares'
  exact ⟨fun _ => hahead.outcome_materialize, fun _ _ _ => hahead.outcome_query,
    fun _ _ _ => hahead.outcome_update⟩

/-- A tree of 40 bytes is refused under a limit of 16 bytes and granted under one of 64.  Reading
it then closes the next tree in the first run only, so the last field lies elsewhere in the
second; a field that was served before is read alike in both. -/
theorem same_reply_of_limit_le_refused :
    let history : List Command := [.declare (.scalar .i32) [2], .update 0 (.write [5] (some 4)),
      .declare (.scalar .i32) [10], .materialize, .declare (.scalar .i32) [1], .query 1 (.get [0]),
      .declare (.scalar .i32) [1]]
    let now := (start (some 16) 0).after history
    let now' := (start (some 64) 9).after history
    LimitLe (some 16) (some 64) ∧ (∀ command ∈ history, command.Own) ∧
      (start (some 16) 0).Declares history ∧ (start (some 64) 9).Declares history ∧
      now.fields.map Field.tree = [0, 1, 2, 3] ∧ now'.fields.map Field.tree = [0, 1, 2, 2] ∧
      now.outcome (.query 0 (.read none none)) = .ok (.lanes (Lanes.ofWords [0, 5])) ∧
      now'.outcome (.query 0 (.read none none)) = .ok (.lanes (Lanes.ofWords [0, 5])) := by
  intro history now now'
  have hle : LimitLe (some 16) (some 64) := by
    show 16 ≤ 64
    decide
  have hown : ∀ command ∈ history, command.Own := by
    simp [history, Command.Own, Command.IsUse]
  have hdeclares : (start (some 16) 0).Declares history :=
    ⟨fun _ _ _ => ⟨_, rfl⟩, nofun, fun _ _ _ => ⟨_, rfl⟩, nofun, fun _ _ _ => ⟨_, rfl⟩, nofun,
      fun _ _ _ => ⟨_, rfl⟩, trivial⟩
  have hdeclares' : (start (some 64) 9).Declares history :=
    ⟨fun _ _ _ => ⟨_, rfl⟩, nofun, fun _ _ _ => ⟨_, rfl⟩, nofun, fun _ _ _ => ⟨_, rfl⟩, nofun,
      fun _ _ _ => ⟨_, rfl⟩, trivial⟩
  have hreply : now.outcome (.query 0 (.read none none))
      = .ok (.lanes (Lanes.ofWords [0, 5])) := rfl
  obtain ⟨-, hqueries, -⟩ := same_reply_of_limit_le (some 16) (some 64) hle 0 9 history hown
    hdeclares hdeclares'
  exact ⟨hle, hown, hdeclares, hdeclares', rfl, rfl, hreply, hqueries 0 _ _ hreply⟩

end Ledger

end FieldStore
