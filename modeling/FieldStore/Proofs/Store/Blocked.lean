/-
A refusal lasts.

Every materialization begins with the first tree that wants storage.  If that tree is not granted
any, it is not granted any later either: the limit stays, a closed tree keeps its size and the open
one only becomes longer.  So nothing is given out any more, and all that commands on the program
can still do to the trees is to add some and to close them.

Before the first refusal there is no queue.  A tree is closed when storage is asked for, and as
long as that is never refused every closed tree has some, so at most the last tree is without.
-/
import FieldStore.Proofs.Store.Demand

namespace FieldStore

variable {fields : List Field} {host host' : Host}

/-! ### Hosts that are blocked -/

namespace Host

/-- Whether the first tree that wants storage is refused it. -/
def Blocked (host : Host) : Prop :=
  ∃ index size rest, host.program.pending = (index, size) :: rest ∧ ¬ host.memory.Grants size

theorem Blocked.not_grantsAll (h : host.Blocked) : ¬ host.GrantsAll := by
  obtain ⟨index, size, rest, hpending, hrefused⟩ := h
  intro hall
  exact hrefused (hall (index, size) (by simp [hpending]))

/-- Whether every closed tree has storage, as it has before the first refusal. -/
def Prompt (host : Host) : Prop :=
  ∀ (index : Nat) (tree : Tree), host.program.trees[index]? = some tree →
    tree.isSealed = true → tree.storage.isSome = true

theorem Prompt.last_of_pending (h : Placed fields host) (hprompt : host.Prompt) :
    ∀ entry ∈ host.program.pending, entry.1 + 1 = host.program.trees.length := by
  intro entry hmem
  obtain ⟨tree, hget, hpending, -⟩ := Program.mem_pending_iff.mp hmem
  obtain ⟨hlt, -⟩ := List.getElem?_eq_some_iff.mp hget
  by_contra hne
  have hstored := hprompt entry.1 tree hget (h.closed entry.1 tree hget (by omega))
  rw [(isPending_iff.mp hpending).1] at hstored
  cases hstored

/-- When at most the last tree wants storage, one that is refused is the first. -/
theorem Prompt.grantsAll_or_blocked (h : Placed fields host) (hprompt : host.Prompt) :
    host.GrantsAll ∨ host.Blocked := by
  have hnodup := Program.nodup_pending host.program
  cases hpending : host.program.pending with
  | nil =>
      refine Or.inl fun entry hmem => ?_
      rw [hpending] at hmem
      cases hmem
  | cons entry rest =>
      obtain ⟨index, size⟩ := entry
      have hlast := hprompt.last_of_pending h
      rw [hpending] at hnodup hlast
      have hrest : rest = [] := by
        cases rest with
        | nil => rfl
        | cons other others =>
            have hfirst := hlast (index, size) (by simp)
            have hsecond := hlast other (by simp)
            have hsame : index = other.1 := by omega
            simp [hsame] at hnodup
      by_cases hgrants : host.memory.Grants size
      · refine Or.inl fun entry hmem => ?_
        rw [hpending, hrest] at hmem
        cases List.mem_singleton.mp hmem
        exact hgrants
      · exact Or.inr ⟨index, size, rest, hpending, hgrants⟩

/-- The tree that a declaration adds to is open. -/
theorem Prompt.declare {program' : Program} {ty : ElementType} {dims : List Nat} {field : Field}
    (h : host.Prompt) (hdeclare : host.program.declare ty dims = .ok (field, program')) :
    Prompt { host with program := program' } := by
  intro index tree hget hsealed
  exact h index tree ((getElem?_declare_of_sealed hdeclare hsealed).mp hget) hsealed

/-- A declaration adds to the end, so the first tree that wants storage is the same, or is that
one and has become longer. -/
theorem Blocked.declare {program' : Program} {ty : ElementType} {dims : List Nat} {field : Field}
    (h : host.Blocked) (hdeclare : host.program.declare ty dims = .ok (field, program')) :
    Blocked { host with program := program' } := by
  obtain ⟨index, size, rest, hpending, hrefused⟩ := h
  obtain ⟨closed, tree, hopen, -, -, -, -, -, -, -, -, rfl⟩ := declare_eq_ok hdeclare
  obtain ⟨-, hsplit⟩ := openTree_eq hopen
  have hnew : Program.pendingFrom 0 (closed ++ [tree.lengthen field.size])
      = Program.pendingFrom 0 closed
        ++ Program.pendingFrom (0 + closed.length) [tree.lengthen field.size] :=
    Program.pendingFrom_append 0 closed _
  rw [Program.pending_eq] at hpending
  cases hclosed : Program.pendingFrom 0 closed with
  | cons entry others =>
      rw [hclosed] at hnew
      have hentry : entry = (index, size) := by
        rcases hsplit with hsplit | ⟨hsplit, -⟩
        · rw [hsplit, Program.pendingFrom_append, hclosed] at hpending
          exact (List.cons.inj hpending).1
        · rw [hsplit, hclosed] at hpending
          exact (List.cons.inj hpending).1
      exact ⟨index, size, _, hentry ▸ hnew, hrefused⟩
  | nil =>
      rcases hsplit with hsplit | ⟨hsplit, -⟩
      · rw [hsplit, Program.pendingFrom_append, hclosed, List.nil_append,
          Program.pendingFrom_cons] at hpending
        by_cases htree : tree.isPending = true
        · rw [if_pos htree] at hpending
          cases hpending
          obtain ⟨hnone, hpos⟩ := isPending_iff.mp htree
          have hlonger : (tree.lengthen field.size).isPending = true :=
            isPending_iff.mpr ⟨hnone, Nat.add_pos_left hpos _⟩
          rw [hclosed, List.nil_append, Program.pendingFrom_cons, if_pos hlonger] at hnew
          refine ⟨_, _, _, hnew, fun hgrants => hrefused (hgrants.of_le ?_)⟩
          exact Nat.le_add_right tree.size field.size
        · rw [if_neg htree] at hpending
          cases hpending
      · rw [hsplit, hclosed] at hpending
        cases hpending

/-! ### What happens to a host that is blocked -/

/-- Whether the trees are the same, but for some that may have been closed. -/
def Idle (host host' : Host) : Prop :=
  host'.program = host.program ∨ host'.program = host.closed.program

theorem storage?_closed (host : Host) (index : Nat) :
    host.closed.program.storage? index = host.program.storage? index := by
  have hmap : host.closed.program.trees = host.program.trees.map closePending := rfl
  rw [Program.storage?, Program.storage?, hmap, List.getElem?_map]
  cases host.program.trees[index]? with
  | none => rfl
  | some tree => exact closePending_storage tree

theorem Idle.storage? (h : host.Idle host') (index : Nat) :
    host'.program.storage? index = host.program.storage? index := by
  rcases h with hsame | hclosed
  · rw [hsame]
  · rw [hclosed, storage?_closed]

theorem Idle.blocked (h : host.Idle host') (hlimit : host'.memory.limit = host.memory.limit)
    (hblocked : host.Blocked) : host'.Blocked := by
  have hpending : host'.program.pending = host.program.pending := by
    rcases h with hsame | hclosed
    · rw [hsame]
    · rw [hclosed]
      exact Program.pending_sealPending host.program
  obtain ⟨index, size, rest, hfirst, hrefused⟩ := hblocked
  refine ⟨index, size, rest, by rw [hpending, hfirst], ?_⟩
  rwa [HostMemory.Grants, hlimit]

/-- A materialization closes the trees that want storage and serves none. -/
theorem Falters.idle {failure : Failure FieldError} (h : host.Falters failure host')
    (hblocked : host.Blocked) : host.Idle host' := by
  obtain ⟨given, index, size, rest, hpending, hgranted, hrefuses⟩ := h
  obtain ⟨first, width, others, hfirst, hrefused⟩ := hblocked
  have hgiven : given = [] := by
    cases given with
    | nil => rfl
    | cons entry given =>
        rw [hfirst] at hpending
        have hentry : (first, width) = entry := (List.cons.inj hpending).1
        exact absurd (hgranted entry List.mem_cons_self) (hentry ▸ hrefused)
  rw [hgiven] at hrefuses
  cases hrefuses with
  | limit => exact Or.inr rfl
  | room => exact Or.inr rfl

end Host

theorem Demand.Met.eq_of_blocked {demand : Demand} {tree : Nat} (hblocked : host.Blocked)
    (hmet : demand.Met host tree host') : host' = host := by
  cases hmet with
  | found => rfl
  | made _ hgrants => exact absurd hgrants hblocked.not_grantsAll

theorem Granted.idle {wanted : Outcome FieldError Demand} {tree : Nat}
    (h : Granted wanted host tree host') (hblocked : host.Blocked) : host.Idle host' := by
  cases h with
  | intro _ hmet hmoved =>
      rw [hmet.eq_of_blocked hblocked] at hmoved
      exact Or.inl hmoved.program

theorem Denied.idle {wanted : Outcome FieldError Demand} {tree : Nat} {failure : Failure FieldError}
    (h : Denied wanted host tree failure host') (hblocked : host.Blocked) : host.Idle host' := by
  cases h with
  | refused => exact Or.inl rfl
  | unmet _ hunmet =>
      cases hunmet with
      | refused _ hfalters => exact hfalters.idle hblocked
      | absent _ hgrants => exact absurd hgrants hblocked.not_grantsAll
  | missed _ hmet =>
      rw [hmet.eq_of_blocked hblocked]
      exact Or.inl rfl
  | faulted _ hmet hmoved =>
      rw [hmet.eq_of_blocked hblocked] at hmoved
      exact Or.inl hmoved.program

end FieldStore
