/-
Programs that differ in identities only.

Which identity a region gets depends on who else has drawn one, and nothing a program does depends
on it.  The outline of a program is its trees without the identities of their storage.  Programs
with the same outline declare the same fields, want storage for the same trees, and when all of it
is granted have the same outline again.
-/
import FieldStore.Proofs.Store.Blocked

namespace FieldStore

variable {fields : List Field} {host host' mid mid' : Host}

/-! ### Outlines -/

/-- The tree with its storage, if it has some, under one identity for all. -/
def Tree.outline (tree : Tree) : Tree := { tree with storage := tree.storage.map fun _ => ⟨0⟩ }

/-- The trees of a program but for the identities of their storage. -/
def Program.outline (program : Program) : List Tree := program.trees.map Tree.outline

theorem Tree.isPending_outline (tree : Tree) : tree.outline.isPending = tree.isPending := by
  show ((tree.storage.map fun _ => (⟨0⟩ : TreeId)).isNone && _) = (tree.storage.isNone && _)
  rw [Option.isNone_map]
  rfl

namespace Program

variable {program program' : Program}

theorem pendingFrom_outline :
    ∀ (trees : List Tree) (start : Nat),
      pendingFrom start (trees.map Tree.outline) = pendingFrom start trees := by
  intro trees
  induction trees with
  | nil => intro start; rfl
  | cons tree rest ih =>
      intro start
      rw [List.map_cons, pendingFrom_cons, pendingFrom_cons, ih, Tree.isPending_outline]
      rfl

theorem pending_of_outline (h : program.outline = program'.outline) :
    program.pending = program'.pending := by
  rw [pending_eq, pending_eq, ← pendingFrom_outline, ← pendingFrom_outline program'.trees]
  exact congrArg (pendingFrom 0) h

theorem isMaterialized_eq_outline (program : Program) (index : Nat) :
    program.isMaterialized index = (program.outline[index]?.bind Tree.storage).isSome := by
  rw [isMaterialized, storage?, outline, List.getElem?_map]
  cases program.trees[index]? with
  | none => rfl
  | some tree => simp [Tree.outline]

theorem isMaterialized_of_outline (h : program.outline = program'.outline) (index : Nat) :
    program.isMaterialized index = program'.isMaterialized index := by
  rw [isMaterialized_eq_outline, isMaterialized_eq_outline, h]

theorem storage?_eq_none_iff {index : Nat} :
    program.storage? index = none ↔ program.isMaterialized index = false := by
  rw [isMaterialized, Option.isSome_eq_false_iff, Option.isNone_iff_eq_none]

theorem outline_sealPending (program : Program) :
    program.sealPending.outline = program.outline.map Host.closePending := by
  rw [outline, outline, List.map_map]
  refine (List.map_map (f := Host.closePending)).trans (List.map_congr_left fun tree _ => ?_)
  rw [Function.comp_apply, Function.comp_apply, Host.closePending, Host.closePending,
    Tree.isPending_outline]
  by_cases h : tree.isPending = true
  · rw [if_pos h, if_pos h]
    rfl
  · rw [if_neg h, if_neg h]

theorem outline_attach (program : Program) (index : Nat) (id : TreeId) :
    (program.attach index id).outline = program.outline.modify index (Tree.give · ⟨0⟩) := by
  apply List.ext_getElem?
  intro position
  simp only [attach, outline, List.getElem?_map, List.getElem?_modify]
  by_cases heq : index = position
  · cases program.trees[position]? with
    | none => simp
    | some tree => simp [heq, Tree.outline, Tree.give]
  · simp [heq]

end Program

theorem Host.outline_supply :
    ∀ {entries : List (Nat × Nat)} {host host' : Host},
      host.program.outline = host'.program.outline →
        (host.supply entries).program.outline = (host'.supply entries).program.outline := by
  intro entries
  induction entries with
  | nil => intro host host' h; exact h
  | cons entry rest ih =>
      intro host host' h
      refine ih ?_
      show (host.program.attach _ _).outline = (host'.program.attach _ _).outline
      rw [Program.outline_attach, Program.outline_attach, h]

/-! ### Fields in different places -/

/-- The same field but for its place. -/
structure Alike (field field' : Field) : Prop where
  size : field'.size = field.size
  shape : field'.shape = field.shape
  type : field'.type = field.type

theorem Shape.eq_of_dims {shape shape' : Shape} (h : shape.dims = shape'.dims) :
    shape = shape' := by
  cases shape
  cases shape'
  simp only at h
  simp only [h]

/-- What is declared differs in its place only, whatever has been declared before. -/
theorem alike_of_declare {program program' next next' : Program} {ty : ElementType}
    {dims : List Nat} {field field' : Field}
    (hdeclare : program.declare ty dims = .ok (field, next))
    (hdeclare' : program'.declare ty dims = .ok (field', next')) : Alike field field' := by
  obtain ⟨_, _, -, -, -, -, -, hsize, hdims, htype, -⟩ := declare_eq_ok hdeclare
  obtain ⟨_, _, -, -, -, -, -, hsize', hdims', htype', -⟩ := declare_eq_ok hdeclare'
  refine ⟨hsize'.trans hsize.symm, ?_, htype'.trans htype.symm⟩
  exact Shape.eq_of_dims (hdims'.trans hdims.symm)

namespace Alike

variable {field field' : Field}

theorem eq_moved (h : Alike field field') :
    field' = { field with tree := field'.tree, offset := field'.offset } := by
  obtain ⟨hsize, hshape, htype⟩ := h
  cases field'
  simp only at hsize hshape htype
  rw [hsize, hshape, htype]

/-! What is asked of a field and what is found in its words does not depend on its place. -/

theorem covers_iff {offset length : Option Nat} (h : Alike field field') :
    field'.Covers offset length ↔ field.Covers offset length := by
  constructor
  · intro hcovers
    exact ⟨hcovers.offset_aligned, h.size ▸ hcovers.length_aligned, h.size ▸ hcovers.fits⟩
  · intro hcovers
    exact ⟨hcovers.offset_aligned, h.size.symm ▸ hcovers.length_aligned,
      h.size.symm ▸ hcovers.fits⟩

theorem valid_iff {request : Query} (h : Alike field field') :
    request.Valid field' ↔ request.Valid field := by
  cases request with
  | read offset length => exact h.covers_iff
  | get indices | toArray => simp only [Query.Valid, h.shape]
  | toNumbers => simp only [Query.Valid, h.type]

theorem answer_eq (h : Alike field field') (words : List Word) (request : Query) :
    request.answer field' words = request.answer field words := by
  rw [h.eq_moved]
  cases request <;> rfl

theorem payload_eq (h : Alike field field') (change : Update) :
    change.payload field' = change.payload field := by
  rw [h.eq_moved]
  cases change <;> rfl

theorem apply_eq (h : Alike field field') (words : List Word) (change : Update) :
    change.apply field' words = change.apply field words := by
  rw [h.eq_moved]
  cases change <;> rfl

end Alike

/-! ### The same declaration -/

theorem openTree_outline (trees : List Tree) :
    Program.openTree (trees.map Tree.outline)
      = ((Program.openTree trees).1.map Tree.outline, (Program.openTree trees).2.outline) := by
  rcases openTree_cases trees with ⟨closed, last, rfl, hunsealed, heq⟩ | ⟨hsealed, heq⟩
  · have hlast : last.outline.isSealed = false := hunsealed
    rw [heq, Program.openTree, List.map_append, List.map_singleton, List.getLast?_concat]
    simp [hlast]
  · rw [heq, Program.openTree, List.getLast?_map]
    cases hlast : trees.getLast? with
    | none => rfl
    | some last =>
        have hlast' : last.outline.isSealed = true := hsealed last hlast
        simp only [Option.map_some, if_pos hlast']
        rfl

/-- Programs with the same outline declare the same field and have the same outline again. -/
theorem outline_declare {program program' next next' : Program} {ty : ElementType}
    {dims : List Nat} {field field' : Field} (h : program.outline = program'.outline)
    (hdeclare : program.declare ty dims = .ok (field, next))
    (hdeclare' : program'.declare ty dims = .ok (field', next')) :
    field' = field ∧ next.outline = next'.outline := by
  have halike := alike_of_declare hdeclare hdeclare'
  obtain ⟨closed, tree, hopen, -, -, htree, hoffset, -, -, -, -, rfl⟩ := declare_eq_ok hdeclare
  obtain ⟨closed', tree', hopen', -, -, htree', hoffset', -, -, -, -, rfl⟩ :=
    declare_eq_ok hdeclare'
  have hsame : (closed.map Tree.outline, tree.outline)
      = (closed'.map Tree.outline, tree'.outline) := by
    have houtline := openTree_outline program.trees
    have houtline' := openTree_outline program'.trees
    rw [hopen] at houtline
    rw [hopen'] at houtline'
    rw [← houtline, ← houtline']
    exact congrArg Program.openTree h
  obtain ⟨hclosed, hlast⟩ := Prod.mk.inj hsame
  have hlength : closed.length = closed'.length := by
    simpa using congrArg List.length hclosed
  have hstart : tree.outline.size = tree'.outline.size := congrArg Tree.size hlast
  constructor
  · have htrees : field'.tree = field.tree := by rw [htree', htree, hlength]
    have hoffsets : field'.offset = field.offset := hoffset'.trans (hstart.symm.trans hoffset.symm)
    rw [halike.eq_moved, htrees, hoffsets]
  · have hlonger : (tree.lengthen field.size).outline = (tree'.lengthen field'.size).outline := by
      have hall : (tree.lengthen field.size).outline = tree.outline.lengthen field.size := rfl
      rw [hall, hlast, halike.size]
      rfl
    simp only [Program.outline, List.map_append, List.map_singleton, hclosed, hlonger]

/-! ### The same request -/

theorem Demand.wants_iff {demand : Demand} {tree : Nat}
    (h : host.program.outline = host'.program.outline) :
    demand.Wants host tree ↔ demand.Wants host' tree := by
  cases demand with
  | nothing => exact Iff.rfl
  | all => exact Iff.rfl
  | own =>
      rw [Wants, Wants, Program.storage?_eq_none_iff, Program.storage?_eq_none_iff,
        Program.isMaterialized_of_outline h]

/-- A demand that is met on both sides is met in the same way. -/
theorem Demand.outline_of_met {demand : Demand} {tree : Nat}
    (h : host.program.outline = host'.program.outline) (hmet : demand.Met host tree mid)
    (hmet' : demand.Met host' tree mid') : mid.program.outline = mid'.program.outline := by
  cases hmet with
  | found hno =>
      cases hmet' with
      | found => exact h
      | made hwants => exact absurd ((wants_iff h).mpr hwants) hno
  | made hwants =>
      cases hmet' with
      | found hno => exact absurd ((wants_iff h).mp hwants) hno
      | made =>
          rw [Program.pending_of_outline h]
          refine Host.outline_supply ?_
          show host.program.sealPending.outline = host'.program.sealPending.outline
          rw [Program.outline_sealPending, Program.outline_sealPending, h]

/-- What a request leaves of the trees when all storage is granted, whether it ends well or not. -/
inductive Settled (wanted : Outcome FieldError Demand) (host : Host) (tree : Nat) : Host → Prop
  | refused {failure : Failure FieldError} {host' : Host} (hwanted : wanted = .error failure)
      (hmoved : host.Moved host') : Settled wanted host tree host'
  | met {demand : Demand} {mid host' : Host} (hwanted : wanted = .ok demand)
      (hmet : demand.Met host tree mid) (hmoved : mid.Moved host') : Settled wanted host tree host'

section Settled

variable {wanted : Outcome FieldError Demand} {tree : Nat}

theorem Granted.settled (h : Granted wanted host tree host') : Settled wanted host tree host' := by
  cases h with
  | intro hwanted hmet hmoved => exact .met hwanted hmet hmoved

theorem Denied.settled {failure : Failure FieldError} (h : Denied wanted host tree failure host')
    (hgrants : host.GrantsAll) : Settled wanted host tree host' := by
  cases h with
  | refused hwanted => exact .refused hwanted (.refl host)
  | unmet hwanted hunmet =>
      cases hunmet with
      | refused _ hfalters => exact absurd hgrants hfalters.not_grantsAll
      | absent hwants => exact .met hwanted (.made hwants hgrants) (.refl _)
  | missed hwanted hmet => exact .met hwanted hmet (.refl _)
  | faulted hwanted hmet hmoved => exact .met hwanted hmet hmoved

theorem outline_of_settled (h : host.program.outline = host'.program.outline)
    (hsettled : Settled wanted host tree mid) (hsettled' : Settled wanted host' tree mid') :
    mid.program.outline = mid'.program.outline := by
  cases hsettled with
  | refused hwanted hmoved =>
      cases hsettled' with
      | refused _ hmoved' => rw [hmoved.program, hmoved'.program, h]
      | met hwanted' => cases hwanted.symm.trans hwanted'
  | met hwanted hmet hmoved =>
      cases hsettled' with
      | refused hwanted' => cases hwanted.symm.trans hwanted'
      | met hwanted' hmet' hmoved' =>
          cases hwanted.symm.trans hwanted'
          rw [hmoved.program, hmoved'.program]
          exact Demand.outline_of_met h hmet hmet'

/-- When all storage is granted every tree has some afterwards, or the trees are the same. -/
theorem Settled.prompt (h : Placed fields host) (hsettled : Settled wanted host tree host')
    (hprompt : host.Prompt) : host'.Prompt := by
  have hmet : ∀ {demand : Demand} {mid : Host}, demand.Met host tree mid → mid.Prompt := by
    intro demand mid hmet
    cases hmet with
    | found => exact hprompt
    | made =>
        obtain ⟨hkept, hnil⟩ := Host.kept_closed_supply h (List.append_nil _).symm
        intro index tree hget _
        obtain ⟨hlt, -⟩ := List.getElem?_eq_some_iff.mp hget
        rw [← Host.storage?_of_get hget]
        exact Host.isSome_storage?_of_pending_nil hkept.placed hnil hlt
  cases hsettled with
  | refused _ hmoved =>
      intro index tree hget hsealed
      rw [hmoved.program] at hget
      exact hprompt index tree hget hsealed
  | met _ hdemand hmoved =>
      intro index tree hget hsealed
      rw [hmoved.program] at hget
      exact hmet hdemand index tree hget hsealed

end Settled

end FieldStore
