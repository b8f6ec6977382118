/-
What materialization does to a host.

It closes the trees that want storage and serves them in order.  However it ends, the placement
still holds and nothing that a region held is lost; if it ends well, no tree wants storage any
more.  `requireStorage` either finds the storage of a tree or materializes, so a result of it is
the storage of that tree from then on.
-/
import FieldStore.Proofs.Store.Backing

namespace FieldStore.Host

variable {fields : List Field} {host host' host'' : Host}

/-- The placement still holds, and the host has only grown. -/
structure Kept (fields : List Field) (host host' : Host) : Prop where
  placed : Placed fields host'
  grown : Grown host host'

theorem Kept.refl (h : Placed fields host) : Kept fields host host := ⟨h, .of_eq rfl rfl⟩

theorem Kept.trans (h : Kept fields host host') (h' : Kept fields host' host'') :
    Kept fields host host'' := ⟨h'.placed, h.grown.trans h'.grown⟩

/-- Identities may be drawn and events and traffic recorded without any consequence. -/
theorem Kept.of_eq (h : Placed fields host) (htrees : host'.program.trees = host.program.trees)
    (hregions : host'.memory.regions = host.memory.regions) (hnext : host.nextId ≤ host'.nextId) :
    Kept fields host host' := by
  have hregion : ∀ id, host'.memory.region? id = host.memory.region? id := by
    intro id
    rw [HostMemory.region?, hregions, HostMemory.region?]
  refine ⟨⟨htrees ▸ h.toArranged, h.toBacked.carry ?_ ?_ ?_⟩, .of_eq htrees hregions⟩
  · intro index tree _
    rw [htrees]
  · intro id size hsize
    rwa [HostMemory.size?, hregion]
  · intro id bytes hbytes
    rw [hregion] at hbytes
    exact Nat.lt_of_lt_of_le (h.fresh id bytes hbytes) hnext

/-- A region of its own for someone else. -/
theorem kept_allocated (h : Placed fields host) (size : Nat) :
    Kept fields host { host with
      memory := host.memory.withZeros ⟨host.nextId⟩ size
      nextId := host.nextId + 1 } := by
  have hbacked := h.toBacked.carry (fun _ _ _ => Iff.rfl)
    (fun id _ hsize => HostMemory.size?_withZeros_of_known hsize) (h.fresh_withZeros size)
  refine ⟨⟨h.toArranged, hbacked⟩, .refl _, ?_, ?_⟩
  · intro id bytes hbytes
    exact HostMemory.region?_withZeros_of_known hbytes
  · intro index tree tree' id hget hget' hnone hsome
    cases hget.symm.trans hget'
    cases hnone.symm.trans hsome

/-! ### Closing -/

/-- The tree after all trees that want storage have been closed. -/
def closePending (tree : Tree) : Tree := if tree.isPending then tree.close else tree

theorem closePending_storage (tree : Tree) : (closePending tree).storage = tree.storage := by
  unfold closePending
  by_cases h : tree.isPending = true
  · rw [if_pos h]
    rfl
  · rw [if_neg h]

theorem becomes_closePending (tree : Tree) : tree.Becomes (closePending tree) := by
  unfold closePending
  by_cases h : tree.isPending = true
  · rw [if_pos h]
    refine ⟨rfl, rfl, fun _ => rfl, ?_⟩
    intro hsome
    rw [(isPending_iff.mp h).1] at hsome
    cases hsome
  · rw [if_neg h]
    exact .refl tree

theorem getElem?_sealPending {program : Program} {index : Nat} {tree' : Tree}
    (h : program.sealPending.trees[index]? = some tree') :
    ∃ tree, program.trees[index]? = some tree ∧ tree' = closePending tree := by
  have hmap : program.sealPending.trees = program.trees.map closePending := rfl
  rw [hmap, List.getElem?_map] at h
  obtain ⟨tree, hget, rfl⟩ := Option.map_eq_some_iff.mp h
  exact ⟨tree, hget, rfl⟩

theorem becomes_sealPending (program : Program) :
    TreesBecome program.trees program.sealPending.trees := by
  have hmap : program.sealPending.trees = program.trees.map closePending := rfl
  rw [hmap]
  refine ⟨List.length_map _, ?_⟩
  intro index tree hget
  exact ⟨closePending tree, by rw [List.getElem?_map, hget]; rfl, becomes_closePending tree⟩

theorem kept_sealPending (h : Placed fields host) :
    Kept fields host { host with program := host.program.sealPending } := by
  have hbecome := becomes_sealPending host.program
  constructor
  case placed =>
    refine ⟨h.toArranged.become hbecome, h.toBacked.carry ?_ (fun _ _ hsize => hsize) h.fresh⟩
    -- A tree with storage is not pending, so it is not closed here.
    intro index tree hstorage
    constructor
    · intro hget
      obtain ⟨old, hold, rfl⟩ := getElem?_sealPending hget
      rw [closePending_storage] at hstorage
      rw [(becomes_closePending old).kept hstorage, hold]
    · intro hget
      obtain ⟨tree', hget', hbecomes⟩ := hbecome.becomes index tree hget
      rw [hget', hbecomes.kept hstorage]
  case grown =>
    refine ⟨hbecome, fun id bytes hb => hb, ?_⟩
    intro index tree found id hget hget' hnone hsome
    obtain ⟨tree', hold, rfl⟩ := getElem?_sealPending hget'
    cases hget.symm.trans hold
    rw [closePending_storage, hnone] at hsome
    cases hsome

/-- The host with every tree that wants storage closed. -/
def closed (host : Host) : Host := { host with program := host.program.sealPending }

/-! ### Serving -/

/-- Every tree that wants storage is closed. -/
def PendingSealed (host : Host) : Prop :=
  ∀ tree ∈ host.program.trees, tree.isPending = true → tree.isSealed = true

theorem pendingSealed_closed (host : Host) : PendingSealed host.closed := by
  intro tree' hmem hpending
  obtain ⟨tree, -, rfl⟩ := List.mem_map.mp hmem
  by_cases h : tree.isPending = true
  · rw [if_pos h]
    rfl
  · rw [if_neg h] at hpending
    exact absurd hpending h

/-- Nothing is left to be closed then. -/
theorem PendingSealed.closed_eq (hsealed : PendingSealed host) : host.closed = host := by
  have htrees : host.program.trees.map (fun tree =>
      if tree.isPending then tree.close else tree) = host.program.trees.map id := by
    refine List.map_congr_left fun tree hmem => ?_
    by_cases hpending : tree.isPending = true
    · rw [if_pos hpending, Tree.close, ← hsealed tree hmem hpending]
      rfl
    · rw [if_neg hpending]
      rfl
  rw [closed, Program.sealPending, htrees, List.map_id]

theorem pendingSealed_of_pending_nil (hnil : host.program.pending = []) : PendingSealed host := by
  intro tree hmem hpending
  rw [Program.pendingFrom_eq_nil hnil tree hmem] at hpending
  cases hpending

theorem closed_of_pending_nil (hnil : host.program.pending = []) : host.closed = host :=
  (pendingSealed_of_pending_nil hnil).closed_eq

/-- What is served next is the first tree that wants storage; after it come the others. -/
theorem kept_served {index size : Nat} {rest : List (Nat × Nat)} (h : Placed fields host)
    (hpending : host.program.pending = (index, size) :: rest) (hsealed : PendingSealed host) :
    Kept fields host (host.served index size) ∧ (host.served index size).program.pending = rest ∧
      PendingSealed (host.served index size) := by
  obtain ⟨front, tree, back, hsplit, rfl, rfl, htree, hfront, rfl⟩ :=
    Program.pendingFrom_eq_cons hpending
  rw [Nat.zero_add] at *
  obtain ⟨hnone, -⟩ := isPending_iff.mp htree
  have hmem : tree ∈ host.program.trees := by simp [hsplit]
  refine ⟨⟨placed_served h hsplit hfront htree (hsealed tree hmem htree),
    grown_served h hsplit hnone⟩, ?_, ?_⟩
  · have hgiven : ¬ (tree.give ⟨host.nextId⟩).isPending = true := by
      simp [Tree.isPending, Tree.give]
    rw [Program.pending_eq, trees_served hsplit, Program.pendingFrom_append,
      Program.pendingFrom_of_none 0 hfront, List.nil_append, Program.pendingFrom_cons,
      if_neg hgiven, Nat.zero_add]
  · intro other hother hwants
    rw [trees_served hsplit] at hother
    rcases List.mem_append.mp hother with hin | hin
    · exact hsealed other (by simp [hsplit, hin]) hwants
    · rcases List.mem_cons.mp hin with rfl | hin
      · simp [Tree.isPending, Tree.give] at hwants
      · exact hsealed other (by simp [hsplit, hin]) hwants

/-- The host after the trees of a list have been served in order. -/
def supply (host : Host) (entries : List (Nat × Nat)) : Host :=
  entries.foldl (fun host entry => host.served entry.1 entry.2) host

theorem limit_supply :
    ∀ (entries : List (Nat × Nat)) (host : Host),
      (host.supply entries).memory.limit = host.memory.limit := by
  intro entries
  induction entries with
  | nil => intro host; rfl
  | cons entry rest ih => intro host; exact ih (host.served entry.1 entry.2)

/-- Serving the first of the trees that want storage leaves the others. -/
theorem kept_supply :
    ∀ {given rest : List (Nat × Nat)} {host : Host}, Placed fields host →
      host.program.pending = given ++ rest → PendingSealed host →
        Kept fields host (host.supply given) ∧ (host.supply given).program.pending = rest ∧
          PendingSealed (host.supply given) := by
  intro given
  induction given with
  | nil => intro rest host h hpending hsealed; exact ⟨.refl h, hpending, hsealed⟩
  | cons entry given ih =>
      intro rest host h hpending hsealed
      obtain ⟨hkept, hrest, hsealed'⟩ := kept_served h hpending hsealed
      obtain ⟨hkept', hrest', hsealed''⟩ := ih hkept.placed hrest hsealed'
      exact ⟨hkept.trans hkept', hrest', hsealed''⟩

theorem pending_closed (host : Host) : host.closed.program.pending = host.program.pending :=
  Program.pending_sealPending host.program

/-- The same for the trees that want storage before they are closed. -/
theorem kept_closed_supply {given rest : List (Nat × Nat)} (h : Placed fields host)
    (hpending : host.program.pending = given ++ rest) :
    Kept fields host (host.closed.supply given) ∧
      (host.closed.supply given).program.pending = rest := by
  have hclosed : Kept fields host host.closed := kept_sealPending h
  obtain ⟨hkept, hrest, -⟩ := kept_supply hclosed.placed (host.pending_closed.trans hpending)
    (pendingSealed_closed host)
  exact ⟨hclosed.trans hkept, hrest⟩

/-- The trees that are left are closed. -/
theorem pendingSealed_closed_supply {given rest : List (Nat × Nat)} (h : Placed fields host)
    (hpending : host.program.pending = given ++ rest) :
    PendingSealed (host.closed.supply given) := by
  have hclosed : Kept fields host host.closed := kept_sealPending h
  exact (kept_supply hclosed.placed (host.pending_closed.trans hpending)
    (pendingSealed_closed host)).2.2

/-! ### Obtaining storage -/

/-- Why a host refuses a region, and what is left of the host.  A region beyond the limit leaves
it as it was; one that no object can hold has used up an identity by then. -/
inductive Refuses (host : Host) (size : Nat) : Failure FieldError → Host → Prop
  | limit {limit : Nat} (hlimit : host.memory.limit = some limit) (hlt : limit < size) :
      Refuses host size (.error (.device (.memoryExhaustion size limit))) host
  | room (hfits : ∀ limit, host.memory.limit = some limit → size ≤ limit)
      (hlt : Size.objectLimit < size) :
      Refuses host size (.fault .capacity) { host with nextId := host.nextId + 1 }

theorem Refuses.not_grants {size : Nat} {failure : Failure FieldError}
    (h : host.Refuses size failure host') : ¬ host.memory.Grants size := by
  intro hgrants
  cases h with
  | limit hlimit hlt => exact Nat.not_le.mpr hlt (hgrants.1 _ hlimit)
  | room _ hlt => exact Nat.not_le.mpr hlt hgrants.2

/-- A region is granted and made, or refused. -/
theorem ends_obtainStorage {index size : Nat} (hpos : 0 < size)
    (haligned : size % wordBytes = 0) :
    Ends (obtainStorage index size) host
      (fun _ host' => host.memory.Grants size ∧ host' = host.served index size)
      (host.Refuses size) := by
  have hpadded := HostMemory.paddedSize_of_aligned hpos haligned
  unfold obtainStorage
  rw [ends_bind, ends_onDevice]
  refine ends_allocate ?_ ?_ ?_
  · intro padded hgranted hle
    obtain ⟨hsame, hlimit⟩ := HostMemory.grantedSize_eq_ok_iff.mp hgranted
    cases hpadded.symm.trans hsame
    exact ⟨⟨hlimit, hle⟩, rfl⟩
  · intro failure hrefused
    obtain ⟨limit, hlimit, hlt, rfl⟩ := HostMemory.grantedSize_eq_error hpadded hrefused
    exact .limit hlimit hlt
  · intro padded hgranted hlt
    obtain ⟨hsame, hlimit⟩ := HostMemory.grantedSize_eq_ok_iff.mp hgranted
    cases hpadded.symm.trans hsame
    exact .room hlimit hlt

/-- Storage for a list of trees is obtained up to the first one that is refused some.  The limit
is that of the memory from the beginning, since serving a tree does not change it. -/
theorem ends_obtainAll :
    ∀ (todo : List (Nat × Nat)) {host : Host},
      (∀ entry ∈ todo, 0 < entry.2 ∧ entry.2 % wordBytes = 0) →
        Ends (todo.forM fun (index, size) => obtainStorage index size) host
          (fun _ host' => (∀ entry ∈ todo, host.memory.Grants entry.2) ∧ host' = host.supply todo)
          (fun failure host' => ∃ given index size rest, todo = given ++ (index, size) :: rest ∧
            (∀ entry ∈ given, host.memory.Grants entry.2) ∧
            (host.supply given).Refuses size failure host') := by
  intro todo
  induction todo with
  | nil => intro host _; exact ⟨fun entry hmem => absurd hmem List.not_mem_nil, rfl⟩
  | cons entry rest ih =>
      intro host hsizes
      obtain ⟨index, size⟩ := entry
      obtain ⟨⟨hpos, haligned⟩, hrest⟩ := List.forall_mem_cons.mp hsizes
      rw [List.forM, ends_bind]
      refine ends_mono (ends_obtainStorage hpos haligned) ?_ ?_
      · intro _ host' hend
        obtain ⟨hgrants, rfl⟩ := hend
        refine ends_mono (ih hrest) ?_ ?_
        · intro _ host'' hend
          exact ⟨List.forall_mem_cons.mpr ⟨hgrants, hend.1⟩, hend.2⟩
        · intro failure host'' hend
          obtain ⟨given, index', size', rest', rfl, hall, hrefuses⟩ := hend
          exact ⟨(index, size) :: given, index', size', rest', rfl,
            List.forall_mem_cons.mpr ⟨hgrants, hall⟩, hrefuses⟩
      · intro failure host' hrefuses
        exact ⟨[], index, size, rest, rfl, fun _ hmem => absurd hmem List.not_mem_nil, hrefuses⟩

/-! ### Materialization -/

/-- How a materialization fails: the trees before the first one that is refused storage have been
served. -/
def Falters (host : Host) (failure : Failure FieldError) (host' : Host) : Prop :=
  ∃ given index size rest, host.program.pending = given ++ (index, size) :: rest ∧
    (∀ entry ∈ given, host.memory.Grants entry.2) ∧
    (host.closed.supply given).Refuses size failure host'

/-- A tree that wants storage wants a whole number of words, and not none. -/
theorem size_of_pending (h : Placed fields host) :
    ∀ entry ∈ host.program.pending, 0 < entry.2 ∧ entry.2 % wordBytes = 0 := by
  intro entry hmem
  obtain ⟨tree, hget, hpending, hsize⟩ := Program.mem_pending_iff.mp hmem
  rw [← hsize]
  exact ⟨(isPending_iff.mp hpending).2, h.size_aligned hget⟩

/-- **What a materialization leaves**: the trees that want storage are served in order, all of
them or those before the first refusal. -/
theorem ends_materialize_supply (h : Placed fields host) :
    Ends materialize host
      (fun _ host' => (∀ entry ∈ host.program.pending, host.memory.Grants entry.2) ∧
        host' = host.closed.supply host.program.pending)
      host.Falters := by
  unfold materialize
  rw [ends_bind, ends_get, ends_bind, ends_setProgram]
  exact ends_obtainAll _ (size_of_pending h)

theorem kept_of_refuses {size : Nat} {failure : Failure FieldError} (h : Placed fields host)
    (hrefuses : host.Refuses size failure host') : Kept fields host host' := by
  cases hrefuses with
  | limit => exact .refl h
  | room => exact .of_eq h rfl rfl (Nat.le_succ _)

theorem kept_of_falters {failure : Failure FieldError} (h : Placed fields host)
    (hfalters : host.Falters failure host') : Kept fields host host' := by
  obtain ⟨given, index, size, rest, hpending, -, hrefuses⟩ := hfalters
  obtain ⟨hkept, -⟩ := kept_closed_supply h hpending
  exact hkept.trans (kept_of_refuses hkept.placed hrefuses)

/-- A tree of a program no tree of which wants storage has some. -/
theorem isSome_storage?_of_pending_nil {index : Nat} (h : Placed fields host)
    (hnil : host.program.pending = []) (hlt : index < host.program.trees.length) :
    (host.program.storage? index).isSome = true := by
  have hget : host.program.trees[index]? = some host.program.trees[index] :=
    List.getElem?_eq_getElem hlt
  rw [Program.storage?, hget, Option.bind_some]
  exact isSome_storage_of_not_pending (h.occupied index _ hget).2
    (Program.pendingFrom_eq_nil hnil _ (List.getElem_mem hlt))

/-- **Materialization keeps the placement**, however it ends, and leaves no tree without storage
if it ends well. -/
theorem ends_materialize (h : Placed fields host) :
    Ends materialize host
      (fun _ host' => Kept fields host host' ∧
        ∀ index, index < host.program.trees.length → (host'.program.storage? index).isSome = true)
      (fun _ host' => Kept fields host host') := by
  refine ends_mono (ends_materialize_supply h) ?_ fun _ _ => kept_of_falters h
  intro _ host' hend
  obtain ⟨-, rfl⟩ := hend
  obtain ⟨hkept, hnil⟩ := kept_closed_supply h (List.append_nil _).symm
  refine ⟨hkept, ?_⟩
  intro index hlt
  rw [← hkept.grown.trees.length] at hlt
  exact isSome_storage?_of_pending_nil hkept.placed hnil hlt

/-- The storage that is found or obtained is that of the tree. -/
theorem ends_requireStorage {tree : Nat} (h : Placed fields host) :
    Ends (requireStorage tree) host
      (fun id host' => Kept fields host host' ∧ host'.program.storage? tree = some id)
      (fun _ host' => Kept fields host host') := by
  unfold requireStorage
  rw [ends_bind, ends_get]
  cases hstorage : host.program.storage? tree with
  | some id => exact ⟨.refl h, hstorage⟩
  | none =>
      show Ends (materialize >>= _) host _ _
      rw [ends_bind]
      refine ends_mono (ends_materialize h) ?_ (fun _ _ hkept => hkept)
      intro _ host' hend
      obtain ⟨hkept, -⟩ := hend
      rw [ends_bind, ends_get]
      cases hstorage' : host'.program.storage? tree with
      | some id => exact ⟨hkept, hstorage'⟩
      | none => exact hkept

end FieldStore.Host
