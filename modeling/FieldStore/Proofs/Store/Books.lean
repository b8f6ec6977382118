/-
Runs of several programs side by side.

A step is a command on one program of a session.  The program and its memory are the only ones that
it changes; the others notice nothing but that identities may have been drawn.  So what is known of
a program on a host of its own is known of every program of a session, whatever the others do.

`Regular` is what is needed of a program later on.  Beside the placement of its fields it says that
the program has never been refused storage or is blocked, so a materialization serves every tree
that wants storage or none.
-/
import FieldStore.Proofs.Store.Accounting
import FieldStore.Proofs.Store.InStep
import FieldStore.Store.Session
import Mathlib.Logic.Function.Basic

namespace FieldStore

variable {fields : List Field} {host host' left : Host}

/-! ### All storage or none -/

/-- Whether the host has never been refused storage or is blocked. -/
def Host.Paced (host : Host) : Prop := host.Prompt ∨ host.Blocked

theorem Host.Paced.grantsAll_or_blocked (h : host.Paced) (hplaced : Placed fields host) :
    host.Prompt ∧ host.GrantsAll ∨ host.Blocked := by
  rcases h with hprompt | hblocked
  · exact (hprompt.grantsAll_or_blocked hplaced).imp (⟨hprompt, ·⟩) id
  · exact Or.inr hblocked

theorem Host.Paced.moved (h : host.Paced) (hmoved : host.Moved left) : left.Paced := by
  have hidle : host.Idle left := Or.inl hmoved.program
  refine h.imp ?_ (hidle.blocked hmoved.limit)
  intro hprompt index tree hget
  rw [hmoved.program] at hget
  exact hprompt index tree hget

section Requests

variable {wanted : Outcome FieldError Demand} {tree : Nat}

theorem Granted.paced (h : Granted wanted host tree left) (hpaced : host.Paced)
    (hplaced : Placed fields host) : left.Paced := by
  rcases hpaced.grantsAll_or_blocked hplaced with ⟨hprompt, -⟩ | hblocked
  · exact Or.inl (h.settled.prompt hplaced hprompt)
  · exact Or.inr ((h.idle hblocked).blocked h.limit hblocked)

theorem Denied.paced {failure : Failure FieldError} (h : Denied wanted host tree failure left)
    (hpaced : host.Paced) (hplaced : Placed fields host) : left.Paced := by
  rcases hpaced.grantsAll_or_blocked hplaced with ⟨hprompt, hgrants⟩ | hblocked
  · exact Or.inl ((h.settled hgrants).prompt hplaced hprompt)
  · exact Or.inr ((h.idle hblocked).blocked h.limit hblocked)

end Requests

theorem Command.ends_paced {command : Command} (h : Placed fields host) (hpaced : host.Paced)
    (hgenuine : command.Genuine) :
    Host.Ends (command.run fields) host (fun _ left => left.Paced) (fun _ left => left.Paced) := by
  have hsound : ∀ field request, command = .queryForeign field request → field.Sound := by
    rintro field request rfl
    exact hgenuine.sound
  cases command with
  | declare ty dims =>
      unfold run
      rw [Host.ends_bind]
      refine Host.ends_declare ?_ fun _ _ => hpaced
      intro field program hdeclare
      exact hpaced.imp (·.declare hdeclare) (·.declare hdeclare)
  | materialize | query | update | queryForeign | updateForeign =>
      exact Host.ends_mono (ends_demand h trivial hsound)
        (fun _ _ hgranted => hgranted.paced hpaced h) fun _ _ hdenied => hdenied.paced hpaced h
  | allocate | readRegion | writeRegion | drawId =>
      exact Host.ends_mono (ends_direct trivial) (fun _ _ hend => hpaced.moved hend.1)
        fun _ _ hend => hpaced.moved hend.1

/-! ### Identities are drawn in order -/

namespace Host

theorem nextId_le_supply :
    ∀ (entries : List (Nat × Nat)) (host : Host), host.nextId ≤ (host.supply entries).nextId := by
  intro entries
  induction entries with
  | nil => intro host; exact Nat.le_refl _
  | cons entry rest ih =>
      intro host
      exact Nat.le_trans (Nat.le_succ _) (ih (host.served entry.1 entry.2))

theorem Readied.nextId_le (h : host.Readied left) : host.nextId ≤ left.nextId := by
  cases h with
  | untouched => exact Nat.le_refl _
  | supplied => exact nextId_le_supply _ host.closed
  | spent => exact Nat.le_succ_of_le (nextId_le_supply _ host.closed)

theorem Performs.nextId_le {entries : List Traffic.Entry} (h : host.Performs entries left) :
    host.nextId ≤ left.nextId := by
  obtain ⟨mid, hreadied, htransfers⟩ := h
  rw [htransfers.nextId]
  exact hreadied.nextId_le

end Host

theorem Command.Leaves.nextId_le {command : Command} {outcome : Outcome FieldError Reply}
    (h : Leaves fields host command outcome left) : host.nextId ≤ left.nextId := by
  cases h with
  | declared => exact Nat.le_refl _
  | performed hperforms => exact hperforms.nextId_le
  | direct _ hnext => exact hnext

/-! ### One program -/

namespace Ledger

variable {ledger : Ledger} {command : Command}

/-- What holds of a program in every state that a run reaches. -/
structure Regular (ledger : Ledger) : Prop where
  placed : Placed ledger.fields ledger.host
  paced : ledger.host.Paced

theorem regular_start (limit : Option Nat) (nextId : Nat) : (start limit nextId).Regular := by
  refine ⟨placed_start limit nextId, Or.inl ?_⟩
  intro index tree hget
  cases hget

/-- A field that a command adds has been declared by it. -/
theorem declared_of_mem {field : Field} (h : Placed ledger.fields ledger.host)
    (hmem : field ∈ declared (ledger.outcome command)) : field.Declared := by
  have heffect : Effect ledger.fields ledger.host command (ledger.outcome command)
      (ledger.step command).host := effect_of_run command h
  generalize ledger.outcome command = outcome at hmem heffect
  generalize (ledger.step command).host = left at heffect
  cases heffect with
  | declared hdeclare =>
      cases List.mem_singleton.mp hmem
      exact ⟨_, _, _, _, hdeclare⟩
  | wrote | wroteForeign | wroteRegion => cases hmem
  | kept _ hnone _ =>
      rw [hnone] at hmem
      cases hmem

/-- A command keeps it, whether it succeeds or not. -/
theorem Regular.step (h : ledger.Regular) (hgenuine : command.Genuine) :
    (ledger.step command).Regular :=
  ⟨(stays_step command h.placed).placed, Host.outcome_of_ends (P := fun _ left => left.Paced)
    (command.ends_paced h.placed h.paced hgenuine)⟩

theorem nextId_le_step (h : Placed ledger.fields ledger.host) (hgenuine : command.Genuine) :
    ledger.host.nextId ≤ (ledger.step command).host.nextId :=
  (leaves_step h hgenuine).nextId_le

/-- The ledger as the next command on it finds it: no events have been recorded, and identities may
have been drawn by others. -/
def resumed (ledger : Ledger) (nextId : Nat) : Ledger :=
  { ledger with host := { ledger.host with nextId := nextId, log := [] } }

theorem Regular.resumed {nextId : Nat} (h : ledger.Regular) (hle : ledger.host.nextId ≤ nextId) :
    (ledger.resumed nextId).Regular := by
  have hkept : Host.Kept ledger.fields ledger.host (ledger.resumed nextId).host :=
    .of_eq h.placed rfl rfl hle
  exact ⟨hkept.placed, h.paced⟩

end Ledger

/-! ### Sessions -/

/-- A session and the fields that each of its programs has declared so far, in order. -/
structure Books where
  session : Session
  fields : Nat → List Field

namespace Books

/-- Programs without fields, one for each limit. -/
def start (limits : List (Option Nat)) : Books := ⟨Session.start limits, fun _ => []⟩

/-- One of the programs, if there is one at that index. -/
def ledger? (books : Books) (index : Nat) : Option Ledger :=
  (books.session.host? index).map fun host => ⟨host, books.fields index⟩

/-- How a command on one of the programs ends. -/
def outcome? (books : Books) (index : Nat) (command : Command) :
    Option (Outcome FieldError Reply) :=
  (books.session.run index (command.run (books.fields index))).map Prod.fst

/-- The books after a command on one of the programs.  Nothing is done about an index that stands
for none of them. -/
def step (books : Books) (index : Nat) (command : Command) : Books :=
  match books.session.run index (command.run (books.fields index)) with
  | some (outcome, _, session) =>
      ⟨session, Function.update books.fields index
        (books.fields index ++ Ledger.declared outcome)⟩
  | none => books

/-- The books after a run. -/
def after (books : Books) (entries : List (Nat × Command)) : Books :=
  entries.foldl (fun books entry => books.step entry.1 entry.2) books

variable {books : Books} {index other : Nat} {command : Command} {ledger : Ledger}

theorem ledger?_eq (books : Books) (index : Nat) :
    books.ledger? index = books.session.programs[index]?.map fun entry =>
      ⟨⟨entry.1, entry.2, books.session.nextId, []⟩, books.fields index⟩ := by
  rw [ledger?, Session.host?]
  cases books.session.programs[index]? with
  | none => rfl
  | some entry => rfl

theorem host?_of_ledger? (h : books.ledger? index = some ledger) :
    books.session.host? index = some ledger.host ∧ books.fields index = ledger.fields := by
  obtain ⟨host, hhost, rfl⟩ := Option.map_eq_some_iff.mp h
  exact ⟨hhost, rfl⟩

theorem run_of_ledger? (h : books.ledger? index = some ledger) (command : Command) :
    books.session.run index (command.run (books.fields index))
      = some (ledger.outcome command, (ledger.step command).host.log,
          books.session.update index (ledger.step command).host) := by
  obtain ⟨hhost, hfields⟩ := host?_of_ledger? h
  rw [Session.run, hhost, hfields]
  rfl

/-- A command on a program of a session ends as on a host of its own. -/
theorem outcome?_of_ledger? (h : books.ledger? index = some ledger) (command : Command) :
    books.outcome? index command = some (ledger.outcome command) := by
  rw [outcome?, run_of_ledger? h]
  rfl

theorem step_of_ledger? (h : books.ledger? index = some ledger) (command : Command) :
    books.step index command
      = ⟨books.session.update index (ledger.step command).host,
          Function.update books.fields index (ledger.step command).fields⟩ := by
  obtain ⟨-, hfields⟩ := host?_of_ledger? h
  rw [step, run_of_ledger? h]
  simp only [hfields]
  rfl

theorem fields_step_self (h : books.ledger? index = some ledger) (command : Command) :
    (books.step index command).fields index = (ledger.step command).fields := by
  rw [step_of_ledger? h]
  exact Function.update_self ..

theorem step_of_none (h : books.ledger? index = none) : books.step index command = books := by
  have hnone : books.session.host? index = none := Option.map_eq_none_iff.mp h
  rw [step, Session.run, hnone]
  rfl

/-- The program is left as on a host of its own. -/
theorem ledger?_step_self (h : books.ledger? index = some ledger) (command : Command) :
    (books.step index command).ledger? index
      = some ((ledger.step command).resumed (ledger.step command).host.nextId) := by
  have hentry := h
  rw [ledger?_eq] at hentry
  obtain ⟨entry, hget, -⟩ := Option.map_eq_some_iff.mp hentry
  obtain ⟨hlt, -⟩ := List.getElem?_eq_some_iff.mp hget
  have hset : (books.session.update index (ledger.step command).host).programs[index]?
      = some ((ledger.step command).host.program, (ledger.step command).host.memory) :=
    List.getElem?_set_self hlt
  have hnext : (books.step index command).session
      = books.session.update index (ledger.step command).host := by
    rw [step_of_ledger? h]
  rw [ledger?_eq, fields_step_self h, hnext, hset]
  rfl

/-- **A step changes one program.**  The others, their memories and their fields are as before. -/
theorem frame_step (books : Books) (command : Command) (hne : other ≠ index) :
    (books.step index command).session.programs[other]? = books.session.programs[other]? ∧
      (books.step index command).fields other = books.fields other := by
  cases h : books.ledger? index with
  | none =>
      rw [step_of_none h]
      exact ⟨rfl, rfl⟩
  | some ledger =>
      rw [step_of_ledger? h]
      exact ⟨List.getElem?_set_ne hne.symm, Function.update_of_ne hne _ _⟩

/-- The others notice at most that identities have been drawn. -/
theorem ledger?_step_of_ne (hne : other ≠ index) (h : books.ledger? index = some ledger) :
    (books.step index command).ledger? other
      = (books.ledger? other).map (·.resumed (ledger.step command).host.nextId) := by
  obtain ⟨hprograms, hfields⟩ := books.frame_step command hne
  have hnext : (books.step index command).session.nextId = (ledger.step command).host.nextId := by
    rw [step_of_ledger? h]
    rfl
  rw [ledger?_eq, ledger?_eq, hprograms, hfields, hnext, Option.map_map]
  rfl

/-- All programs draw their identities from one source. -/
theorem nextId_of_ledger? (h : books.ledger? index = some ledger) :
    ledger.host.nextId = books.session.nextId := by
  rw [ledger?_eq] at h
  obtain ⟨entry, -, rfl⟩ := Option.map_eq_some_iff.mp h
  rfl

/-- What holds of a session in every state that a run reaches. -/
structure Regular (books : Books) : Prop where
  ledgers : ∀ (index : Nat) (ledger : Ledger), books.ledger? index = some ledger → ledger.Regular
  declared : ∀ (index : Nat) (field : Field), field ∈ books.fields index → field.Declared

theorem regular_start (limits : List (Option Nat)) : (start limits).Regular := by
  refine ⟨?_, fun _ _ hmem => by cases hmem⟩
  intro index ledger h
  rw [ledger?_eq] at h
  obtain ⟨entry, hget, rfl⟩ := Option.map_eq_some_iff.mp h
  rw [start, Session.start, List.getElem?_map] at hget
  obtain ⟨limit, -, rfl⟩ := Option.map_eq_some_iff.mp hget
  exact Ledger.regular_start limit 0

/-- A step keeps it: for the program that takes it by what a command does, and for the others
because only the next identity has changed for them. -/
theorem Regular.step (h : books.Regular) (hgenuine : command.Genuine) :
    (books.step index command).Regular := by
  cases hledger : books.ledger? index with
  | none =>
      rw [step_of_none hledger]
      exact h
  | some ledger =>
      have hregular := h.ledgers index ledger hledger
      constructor
      case ledgers =>
        intro other found hfound
        by_cases hne : other = index
        · rw [hne, ledger?_step_self hledger] at hfound
          cases hfound
          exact (hregular.step hgenuine).resumed (Nat.le_refl _)
        · rw [ledger?_step_of_ne hne hledger] at hfound
          obtain ⟨before, hbefore, rfl⟩ := Option.map_eq_some_iff.mp hfound
          refine (h.ledgers other before hbefore).resumed ?_
          rw [nextId_of_ledger? hbefore, ← nextId_of_ledger? hledger]
          exact Ledger.nextId_le_step hregular.placed hgenuine
      case declared =>
        intro other field hmem
        by_cases hne : other = index
        · obtain ⟨-, hfields⟩ := host?_of_ledger? hledger
          rw [hne, fields_step_self hledger] at hmem
          rcases List.mem_append.mp hmem with hold | hnew
          · exact h.declared index field (hfields ▸ hold)
          · exact Ledger.declared_of_mem hregular.placed hnew
        · rw [(books.frame_step command hne).2] at hmem
          exact h.declared other field hmem

/-- **Every program of a session is regular**, in every state that a run reaches. -/
theorem Regular.after :
    ∀ (entries : List (Nat × Command)) {books : Books}, books.Regular →
      (∀ entry ∈ entries, entry.2.Genuine) → (books.after entries).Regular := by
  intro entries
  induction entries with
  | nil => intro books h _; exact h
  | cons entry rest ih =>
      intro books h hgenuine
      obtain ⟨hfirst, hrest⟩ := List.forall_mem_cons.mp hgenuine
      exact ih (h.step hfirst) hrest

end Books

end FieldStore
