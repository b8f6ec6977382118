/-
Which trees have storage.

Storage is given out from the first tree on, under identities that were never used before, and
never taken back.  Materialization closes the trees that want some and then serves them in
order.  The induction follows the list of those still to be served, which at every point is the
list of the trees that want storage at that point; so the one to be served next has none before
it, whether an earlier attempt stopped half-way or not.
-/
import FieldStore.Proofs.Store.Arrangement
import FieldStore.Proofs.Store.Run

namespace FieldStore

/-- The trees with storage, the memory that gave it and the next identity. -/
structure Backed (trees : List Tree) (memory : HostMemory) (nextId : Nat) : Prop where
  /-- A tree with storage is closed. -/
  sealed_of_storage : ∀ (index : Nat) (tree : Tree), trees[index]? = some tree →
    tree.storage.isSome = true → tree.isSealed = true
  /-- All trees before it have storage too. -/
  earlier : ∀ (index later : Nat) (tree tree' : Tree), index < later →
    trees[index]? = some tree → trees[later]? = some tree' →
      tree'.storage.isSome = true → tree.storage.isSome = true
  /-- No two trees have the same storage. -/
  distinct : ∀ (index other : Nat) (tree tree' : Tree) (id : TreeId),
    trees[index]? = some tree → trees[other]? = some tree' →
      tree.storage = some id → tree'.storage = some id → index = other
  /-- The storage of a tree is a region of its size. -/
  known : ∀ (index : Nat) (tree : Tree) (id : TreeId), trees[index]? = some tree →
    tree.storage = some id → memory.size? id = some tree.size
  /-- Every region has an identity that was drawn before. -/
  fresh : ∀ (id : TreeId) (bytes : List Byte), memory.region? id = some bytes → id.number < nextId

theorem backed_empty (limit : Option Nat) (nextId : Nat) :
    Backed [] (HostMemory.empty limit) nextId := by
  constructor <;> simp [HostMemory.empty, HostMemory.region?]

/-- When the trees with storage are the same and their regions keep their sizes, nothing else
matters. -/
theorem Backed.carry {trees trees' : List Tree} {memory memory' : HostMemory} {nextId nextId' : Nat}
    (h : Backed trees memory nextId)
    (hsame : ∀ (index : Nat) (tree : Tree), tree.storage.isSome = true →
      (trees'[index]? = some tree ↔ trees[index]? = some tree))
    (hsizes : ∀ (id : TreeId) (size : Nat), memory.size? id = some size →
      memory'.size? id = some size)
    (hfresh : ∀ (id : TreeId) (bytes : List Byte), memory'.region? id = some bytes →
      id.number < nextId') : Backed trees' memory' nextId' := by
  have hsome : ∀ {tree : Tree} {id : TreeId}, tree.storage = some id →
      tree.storage.isSome = true := fun hid => by rw [hid]; rfl
  constructor
  case sealed_of_storage =>
    intro index tree hget hstorage
    exact h.sealed_of_storage index tree ((hsame index tree hstorage).mp hget) hstorage
  case earlier =>
    intro index later tree tree' hlt hget hget' hstorage
    have hlater := (hsame later tree' hstorage).mp hget'
    obtain ⟨hbound, -⟩ := List.getElem?_eq_some_iff.mp hlater
    have hindex : index < trees.length := Nat.lt_trans hlt hbound
    have hold : trees[index]? = some trees[index] := List.getElem?_eq_getElem hindex
    have hstored := h.earlier index later _ tree' hlt hold hlater hstorage
    cases hget.symm.trans ((hsame index _ hstored).mpr hold)
    exact hstored
  case distinct =>
    intro index other tree tree' id hget hget' hid hid'
    exact h.distinct index other tree tree' id ((hsame index tree (hsome hid)).mp hget)
      ((hsame other tree' (hsome hid')).mp hget') hid hid'
  case known =>
    intro index tree id hget hid
    exact hsizes id _ (h.known index tree id ((hsame index tree (hsome hid)).mp hget) hid)
  case fresh => exact hfresh

/-- **The placement of the fields of a program**, and of its trees in the memory of a host. -/
structure Placed (fields : List Field) (host : Host) : Prop
    extends Arranged fields host.program.trees,
      Backed host.program.trees host.memory host.nextId

/-! ### Hosts that only grow -/

/-- What may happen to a host without a declaration and without a write: trees are closed and
given storage, which is zero at first, and no region is lost or changed. -/
structure Grown (host host' : Host) : Prop where
  trees : TreesBecome host.program.trees host'.program.trees
  regions : ∀ (id : TreeId) (bytes : List Byte), host.memory.region? id = some bytes →
    host'.memory.region? id = some bytes
  zeros : ∀ (index : Nat) (tree tree' : Tree) (id : TreeId),
    host.program.trees[index]? = some tree → host'.program.trees[index]? = some tree' →
      tree.storage = none → tree'.storage = some id →
        host'.memory.region? id = some (List.replicate tree.size 0)

/-- A host whose trees and regions are the same has not changed in this respect. -/
theorem Grown.of_eq {host host' : Host} (htrees : host'.program.trees = host.program.trees)
    (hregions : host'.memory.regions = host.memory.regions) : Grown host host' := by
  refine ⟨htrees ▸ .refl _, ?_, ?_⟩
  · intro id bytes h
    rwa [HostMemory.region?, hregions]
  · intro index tree tree' id hget hget' hnone hsome
    rw [htrees] at hget'
    cases hget.symm.trans hget'
    cases hnone.symm.trans hsome

theorem Grown.trans {host host' host'' : Host} (h : Grown host host') (h' : Grown host' host'') :
    Grown host host'' := by
  have hregions : ∀ (id : TreeId) (bytes : List Byte), host.memory.region? id = some bytes →
      host''.memory.region? id = some bytes :=
    fun id bytes hbytes => h'.regions id bytes (h.regions id bytes hbytes)
  refine ⟨h.trees.trans h'.trees, hregions, ?_⟩
  intro index tree tree'' id hget hget'' hnone hsome
  obtain ⟨tree', hget', hbecomes⟩ := h.trees.becomes index tree hget
  cases hstorage : tree'.storage with
  | none =>
      rw [← hbecomes.size]
      exact h'.zeros index tree' tree'' id hget' hget'' hstorage hsome
  | some id' =>
      obtain ⟨_, hget''', hbecomes'⟩ := h'.trees.becomes index tree' hget'
      cases hget''.symm.trans hget'''
      have hkept := hbecomes'.kept (by rw [hstorage]; rfl)
      rw [hkept] at hsome
      exact h'.regions id _ (h.zeros index tree tree' id hget hget' hnone hsome)

/-! ### The trees to be served -/

namespace Program

/-- The trees that want storage, by position and size, positions being counted from `start`. -/
def pendingFrom (start : Nat) (trees : List Tree) : List (Nat × Nat) :=
  (trees.zipIdx start).filterMap fun (tree, index) =>
    if tree.isPending then some (index, tree.size) else none

theorem pending_eq (program : Program) : program.pending = pendingFrom 0 program.trees := rfl

theorem pendingFrom_cons (start : Nat) (tree : Tree) (trees : List Tree) :
    pendingFrom start (tree :: trees) =
      if tree.isPending then (start, tree.size) :: pendingFrom (start + 1) trees
      else pendingFrom (start + 1) trees := by
  simp only [pendingFrom, List.zipIdx_cons, List.filterMap_cons]
  by_cases h : tree.isPending = true
  · rw [if_pos h, if_pos h]
  · rw [if_neg h, if_neg h]

/-- The first tree to be served has none before it, and those after it are served later. -/
theorem pendingFrom_eq_cons :
    ∀ {trees : List Tree} {start index size : Nat} {rest : List (Nat × Nat)},
      pendingFrom start trees = (index, size) :: rest →
        ∃ front tree back, trees = front ++ tree :: back ∧ index = start + front.length ∧
          size = tree.size ∧ tree.isPending = true ∧ (∀ t ∈ front, t.isPending = false) ∧
          rest = pendingFrom (index + 1) back := by
  intro trees
  induction trees with
  | nil => intro start index size rest h; cases h
  | cons first trees ih =>
      intro start index size rest h
      rw [pendingFrom_cons] at h
      by_cases hfirst : first.isPending = true
      · rw [if_pos hfirst] at h
        cases h
        exact ⟨[], first, trees, rfl, rfl, rfl, hfirst, by simp, rfl⟩
      · rw [if_neg hfirst] at h
        obtain ⟨front, tree, back, rfl, rfl, hsize, hpending, hfront, hrest⟩ := ih h
        refine ⟨first :: front, tree, back, rfl, by simp; omega, hsize, hpending, ?_, hrest⟩
        intro t ht
        rcases List.mem_cons.mp ht with rfl | ht
        · simpa using hfirst
        · exact hfront t ht

theorem pendingFrom_append (start : Nat) (front back : List Tree) :
    pendingFrom start (front ++ back)
      = pendingFrom start front ++ pendingFrom (start + front.length) back := by
  simp [pendingFrom, List.zipIdx_append]

/-- Trees that want no storage are passed over. -/
theorem pendingFrom_of_none (start : Nat) :
    ∀ {trees : List Tree}, (∀ t ∈ trees, t.isPending = false) → pendingFrom start trees = [] := by
  intro trees
  induction trees generalizing start with
  | nil => intro _; rfl
  | cons first rest ih =>
      intro h
      have hfirst : ¬ first.isPending = true := by
        rw [h first List.mem_cons_self]
        exact Bool.false_ne_true
      rw [pendingFrom_cons, if_neg hfirst]
      exact ih (start + 1) fun t ht => h t (List.mem_cons_of_mem _ ht)

theorem pendingFrom_eq_nil :
    ∀ {trees : List Tree} {start : Nat}, pendingFrom start trees = [] →
      ∀ tree ∈ trees, tree.isPending = false := by
  intro trees
  induction trees with
  | nil => intro start _ tree hmem; cases hmem
  | cons first trees ih =>
      intro start h tree hmem
      rw [pendingFrom_cons] at h
      by_cases hfirst : first.isPending = true
      · rw [if_pos hfirst] at h
        cases h
      · rw [if_neg hfirst] at h
        rcases List.mem_cons.mp hmem with rfl | hmem
        · simpa using hfirst
        · exact ih h tree hmem

theorem mem_pending_iff {program : Program} {index size : Nat} :
    (index, size) ∈ program.pending ↔
      ∃ tree, program.trees[index]? = some tree ∧ tree.isPending = true ∧ tree.size = size := by
  simp only [pending, List.mem_filterMap, Prod.exists, List.mem_zipIdx_iff_getElem?,
    Option.ite_none_right_eq_some, Option.some.injEq, Prod.mk.injEq]
  constructor
  · rintro ⟨tree, found, hget, hpending, rfl, hsize⟩
    exact ⟨tree, hget, hpending, hsize⟩
  · rintro ⟨tree, hget, hpending, hsize⟩
    exact ⟨tree, index, hget, hpending, rfl, hsize⟩

theorem pendingFrom_sublist :
    ∀ (trees : List Tree) (start : Nat),
      ((pendingFrom start trees).map Prod.fst).Sublist (List.range' start trees.length) := by
  intro trees
  induction trees with
  | nil => intro start; exact List.nil_sublist _
  | cons first trees ih =>
      intro start
      rw [pendingFrom_cons, List.length_cons, List.range'_succ]
      by_cases hfirst : first.isPending = true
      · rw [if_pos hfirst, List.map_cons]
        exact (ih (start + 1)).cons_cons start
      · rw [if_neg hfirst]
        exact (ih (start + 1)).cons start

/-- No tree wants storage twice. -/
theorem nodup_pending (program : Program) : (program.pending.map Prod.fst).Nodup :=
  (pendingFrom_sublist program.trees 0).nodup (List.nodup_range' ..)

/-- Closing the trees does not change which of them want storage. -/
theorem pending_sealPending (program : Program) :
    program.sealPending.pending = program.pending := by
  have hall : ∀ (trees : List Tree) (start : Nat),
      pendingFrom start (trees.map fun tree => if tree.isPending then tree.close else tree)
        = pendingFrom start trees := by
    intro trees
    induction trees with
    | nil => intro start; rfl
    | cons first trees ih =>
        intro start
        rw [List.map_cons, pendingFrom_cons, pendingFrom_cons, ih]
        by_cases hfirst : first.isPending = true
        · rw [if_pos hfirst]
          rfl
        · rw [if_neg hfirst]
  exact hall program.trees 0

end Program

/-! ### Serving one tree -/

section Serve

variable {fields : List Field} {host : Host}

/-- The tree with storage on record. -/
def Tree.give (tree : Tree) (id : TreeId) : Tree := { tree with storage := some id }

/-- The host after the tree at a position has been given a region of its own. -/
def Host.served (host : Host) (index size : Nat) : Host :=
  { host with
    program := host.program.attach index ⟨host.nextId⟩
    memory := host.memory.withZeros ⟨host.nextId⟩ size
    nextId := host.nextId + 1 }

theorem modify_append (f : Tree → Tree) (tree : Tree) (back : List Tree) :
    ∀ front : List Tree,
      (front ++ tree :: back).modify front.length f = front ++ f tree :: back := by
  intro front
  induction front with
  | nil => rfl
  | cons first front ih => simpa using ih

theorem trees_served {front back : List Tree} {tree : Tree}
    (hsplit : host.program.trees = front ++ tree :: back) (size : Nat) :
    (host.served front.length size).program.trees
      = front ++ tree.give ⟨host.nextId⟩ :: back := by
  show host.program.trees.modify front.length _ = _
  rw [hsplit, modify_append]
  rfl

/-- Replacing one tree of a list leaves the others where they are. -/
theorem getElem?_replaced {front back : List Tree} {tree' found : Tree} {index : Nat} (tree : Tree)
    (h : (front ++ tree' :: back)[index]? = some found) :
    (index = front.length ∧ found = tree') ∨
      (index ≠ front.length ∧ (front ++ tree :: back)[index]? = some found) := by
  by_cases heq : index = front.length
  · subst heq
    rw [List.getElem?_append_right (Nat.le_refl _), Nat.sub_self, List.getElem?_cons_zero] at h
    exact Or.inl ⟨rfl, (Option.some.inj h).symm⟩
  · refine Or.inr ⟨heq, ?_⟩
    rw [← h]
    rcases Nat.lt_or_ge index front.length with hlt | hge
    · rw [List.getElem?_append_left hlt, List.getElem?_append_left hlt]
    · rw [List.getElem?_append_right hge, List.getElem?_append_right hge]
      obtain ⟨k, hk⟩ := Nat.exists_eq_succ_of_ne_zero (n := index - front.length) (by omega)
      rw [hk, List.getElem?_cons_succ, List.getElem?_cons_succ]

/-- The trees afterwards: the one that was served, and those that are as they were. -/
theorem getElem?_served {front back : List Tree} {tree found : Tree} {index : Nat} (size : Nat)
    (hsplit : host.program.trees = front ++ tree :: back)
    (h : (host.served front.length size).program.trees[index]? = some found) :
    (index = front.length ∧ found = tree.give ⟨host.nextId⟩) ∨
      (index ≠ front.length ∧ host.program.trees[index]? = some found) := by
  rw [trees_served hsplit] at h
  rw [hsplit]
  exact getElem?_replaced tree h

theorem isPending_iff {tree : Tree} :
    tree.isPending = true ↔ tree.storage = none ∧ 0 < tree.size := by
  simp [Tree.isPending]

/-- A tree that has room and wants no storage has some. -/
theorem isSome_storage_of_not_pending {tree : Tree} (hsize : 0 < tree.size)
    (hno : tree.isPending = false) : tree.storage.isSome = true := by
  cases hstorage : tree.storage with
  | some id => rfl
  | none =>
      rw [isPending_iff.mpr ⟨hstorage, hsize⟩] at hno
      cases hno

/-- The next identity belongs to no region yet. -/
theorem Backed.region?_next {trees : List Tree} {memory : HostMemory} {nextId : Nat}
    (h : Backed trees memory nextId) : memory.region? ⟨nextId⟩ = none := by
  cases hregion : memory.region? ⟨nextId⟩ with
  | none => rfl
  | some bytes => exact absurd (h.fresh _ bytes hregion) (Nat.lt_irrefl _)

/-- Giving out a region uses up the next identity. -/
theorem Backed.fresh_withZeros {trees : List Tree} {memory : HostMemory} {nextId : Nat}
    (h : Backed trees memory nextId) (size : Nat) :
    ∀ (id : TreeId) (bytes : List Byte),
      (memory.withZeros ⟨nextId⟩ size).region? id = some bytes → id.number < nextId + 1 := by
  intro id bytes hbytes
  rcases HostMemory.known_of_region?_withZeros hbytes with heq | hold
  · rw [heq]
    exact Nat.lt_succ_self nextId
  · exact Nat.lt_succ_of_lt (h.fresh id bytes hold)

theorem becomes_served {front back : List Tree} {tree : Tree} {size : Nat}
    (hsplit : host.program.trees = front ++ tree :: back) (hnone : tree.storage = none) :
    TreesBecome host.program.trees (host.served front.length size).program.trees := by
  rw [trees_served hsplit, hsplit]
  refine ⟨by simp, ?_⟩
  intro index found hget
  rcases getElem?_replaced (tree.give ⟨host.nextId⟩) hget with ⟨rfl, hfound⟩ | ⟨-, hother⟩
  · rw [hfound]
    refine ⟨tree.give ⟨host.nextId⟩, by simp, rfl, rfl, id, ?_⟩
    intro hsome
    rw [hnone] at hsome
    cases hsome
  · exact ⟨found, hother, .refl found⟩

theorem grown_served {front back : List Tree} {tree : Tree} (h : Placed fields host)
    (hsplit : host.program.trees = front ++ tree :: back) (hnone : tree.storage = none) :
    Grown host (host.served front.length tree.size) := by
  refine ⟨becomes_served hsplit hnone, ?_, ?_⟩
  · intro id bytes hb
    exact HostMemory.region?_withZeros_of_known hb
  · intro index old new id hget hget' hold hnew
    rw [trees_served hsplit] at hget'
    rw [hsplit] at hget
    rcases getElem?_replaced tree hget' with ⟨rfl, rfl⟩ | ⟨-, hother⟩
    · have htree : tree = old := by simpa using hget
      cases hnew
      rw [← htree]
      exact HostMemory.region?_withZeros_self h.region?_next
    · cases hget.symm.trans hother
      cases hold.symm.trans hnew

theorem placed_served {front back : List Tree} {tree : Tree} (h : Placed fields host)
    (hsplit : host.program.trees = front ++ tree :: back)
    (hfront : ∀ t ∈ front, t.isPending = false) (hpending : tree.isPending = true)
    (hsealed : tree.isSealed = true) :
    Placed fields (host.served front.length tree.size) := by
  obtain ⟨hnone, -⟩ := isPending_iff.mp hpending
  have hgrown := grown_served h hsplit hnone
  have hget : host.program.trees[front.length]? = some tree := by simp [hsplit]
  -- No tree that had storage before has the new identity.
  have hnew : ∀ (index : Nat) (found : Tree), host.program.trees[index]? = some found →
      found.storage ≠ some ⟨host.nextId⟩ := by
    intro index found hfound hid
    have hknown := h.known index found _ hfound hid
    rw [HostMemory.size?, h.region?_next] at hknown
    cases hknown
  refine ⟨h.toArranged.become hgrown.trees, ?_⟩
  constructor
  case sealed_of_storage =>
    intro index found hfound hsome
    rcases getElem?_served _ hsplit hfound with ⟨-, rfl⟩ | ⟨-, hold⟩
    · exact hsealed
    · exact h.sealed_of_storage index found hold hsome
  case earlier =>
    intro index later found found' hlt hfound hfound' hsome
    rcases getElem?_served _ hsplit hfound with ⟨-, rfl⟩ | ⟨-, hold⟩
    · rfl
    · rcases getElem?_served _ hsplit hfound' with ⟨rfl, -⟩ | ⟨-, hold'⟩
      · have hmem : found ∈ front := by
          rw [hsplit, List.getElem?_append_left hlt] at hold
          exact List.mem_of_getElem? hold
        exact isSome_storage_of_not_pending (h.occupied index found hold).2 (hfront found hmem)
      · exact h.earlier index later found found' hlt hold hold' hsome
  case distinct =>
    intro index other found found' id hfound hfound' hid hid'
    rcases getElem?_served _ hsplit hfound with ⟨rfl, rfl⟩ | ⟨-, hold⟩
    · rcases getElem?_served _ hsplit hfound' with ⟨rfl, -⟩ | ⟨-, hold'⟩
      · rfl
      · cases hid
        exact absurd hid' (hnew other found' hold')
    · rcases getElem?_served _ hsplit hfound' with ⟨-, rfl⟩ | ⟨-, hold'⟩
      · cases hid'
        exact absurd hid (hnew index found hold)
      · exact h.distinct index other found found' id hold hold' hid hid'
  case known =>
    intro index found id hfound hid
    rcases getElem?_served _ hsplit hfound with ⟨rfl, rfl⟩ | ⟨-, hold⟩
    · rw [HostMemory.size?, hgrown.zeros _ tree _ id hget hfound hnone hid]
      simp [Tree.give]
    · exact HostMemory.size?_withZeros_of_known (h.known index found id hold hid)
  case fresh => exact h.fresh_withZeros tree.size

end Serve

end FieldStore
