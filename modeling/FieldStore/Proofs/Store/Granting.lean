/-
When storage is granted.

Whether one more region is granted depends on its size and on the limit of the memory alone, and
serving a tree changes neither.  So a materialization succeeds exactly when every tree that wants
storage would be granted some: the first refusal ends it, and there is no refusal otherwise.  A
tree is therefore not judged by itself.  Unless it has storage already, it is served only if all
trees that want some are.
-/
import FieldStore.Proofs.Store.Materialize

namespace FieldStore

variable {fields : List Field} {host : Host}

/-- Whether every tree that wants storage would be granted some. -/
def Host.GrantsAll (host : Host) : Prop :=
  ∀ entry ∈ host.program.pending, host.memory.Grants entry.2

/-- Whether a tree has storage or is going to be given some when it is asked for. -/
def Host.Serves (host : Host) (tree : Nat) : Prop :=
  host.program.isMaterialized tree = true ∨ host.GrantsAll

namespace Host

theorem Falters.not_grantsAll {failure : Failure FieldError} {host' : Host}
    (h : host.Falters failure host') : ¬ host.GrantsAll := by
  obtain ⟨given, index, size, rest, hpending, -, hrefuses⟩ := h
  intro hall
  refine hrefuses.not_grants ?_
  rw [HostMemory.Grants, limit_supply]
  exact hall (index, size) (by simp [hpending])

/-- **A materialization succeeds if and only if every tree that wants storage is granted some.** -/
theorem ends_materialize_grants (h : Placed fields host) :
    Ends materialize host (fun _ _ => host.GrantsAll) (fun _ _ => ¬ host.GrantsAll) :=
  ends_mono (ends_materialize_supply h) (fun _ _ hend => hend.1) fun _ _ => Falters.not_grantsAll

theorem isMaterialized_of_storage {tree : Nat} {id : TreeId}
    (h : host.program.storage? tree = some id) : host.program.isMaterialized tree = true := by
  rw [Program.isMaterialized, h]
  rfl

/-- How a request that is not served ends: the materialization that it called for has failed. -/
def Unserved (host : Host) (served : Prop) (failure : Failure FieldError) (host' : Host) : Prop :=
  ¬ served ∧ host.Falters failure host'

/-- The storage of a tree of the program is there or obtained if and only if the tree is served. -/
theorem ends_requireStorage_serves {tree : Nat} (h : Placed fields host)
    (htree : tree < host.program.trees.length) :
    Ends (requireStorage tree) host (fun _ _ => host.Serves tree)
      (host.Unserved (host.Serves tree)) := by
  unfold requireStorage
  rw [ends_bind, ends_get]
  cases hstorage : host.program.storage? tree with
  | some id => exact Or.inl (isMaterialized_of_storage hstorage)
  | none =>
      have hnone : host.program.isMaterialized tree = false := by
        rw [Program.isMaterialized, hstorage]
        rfl
      show Ends (materialize >>= _) host _ _
      rw [ends_bind]
      refine ends_mono (ends_and (ends_materialize h) (ends_materialize_supply h)) ?_ ?_
      · intro _ host' hend
        obtain ⟨⟨-, hobtained⟩, hgrants, -⟩ := hend
        rw [ends_bind, ends_get]
        cases hstorage' : host'.program.storage? tree with
        | some id => exact Or.inr hgrants
        | none =>
            have hsome := hobtained tree htree
            rw [hstorage'] at hsome
            cases hsome
      · intro _ _ hend
        refine ⟨?_, hend.2⟩
        rintro (hhas | hgrants)
        · rw [hnone] at hhas
          cases hhas
        · exact hend.2.not_grantsAll hgrants

end Host

end FieldStore
