/-
What a list of named entries answers.

`Entries.insert` either replaces the entry under its key or puts a new one in front of an entry
with a larger key.  Whichever it does, the key now answers with the new value and every other
key answers as before; neither fact needs the entries to be sorted.
-/
import FieldStore.Element.Value

namespace FieldStore.Entries

variable {α : Type}

theorem lookup_insert_self (key : String) (value : α) :
    ∀ entries : Entries α, (entries.insert key value).lookup key = some value := by
  intro entries
  induction entries with
  | nil => simp [insert]
  | cons entry rest ih =>
      obtain ⟨k, v⟩ := entry
      simp only [insert]
      by_cases hlt : key < k
      · rw [if_pos hlt, List.lookup_cons_self]
      · by_cases heq : key = k
        · rw [if_neg hlt, if_pos heq, List.lookup_cons_self]
        · have hne : (key == k) = false := beq_false_of_ne heq
          rw [if_neg hlt, if_neg heq, List.lookup_cons, hne]
          exact ih

theorem lookup_insert_of_ne {key other : String} (h : other ≠ key) (value : α) :
    ∀ entries : Entries α, (entries.insert key value).lookup other = entries.lookup other := by
  intro entries
  have hne : (other == key) = false := beq_false_of_ne h
  induction entries with
  | nil => simp [insert, List.lookup_cons, hne]
  | cons entry rest ih =>
      obtain ⟨k, v⟩ := entry
      simp only [insert]
      by_cases hlt : key < k
      · rw [if_pos hlt, List.lookup_cons, hne]
      · by_cases heq : key = k
        · subst heq
          rw [if_neg hlt, if_pos rfl, List.lookup_cons, List.lookup_cons, hne]
        · rw [if_neg hlt, if_neg heq, List.lookup_cons, List.lookup_cons, ih]

/-- The entries with those of a list added one after the other. -/
def insertAll (entries : Entries α) (added : List (String × α)) : Entries α :=
  added.foldl (fun sorted entry => sorted.insert entry.1 entry.2) entries

theorem lookup_insertAll_of_not_mem {key : String} :
    ∀ (added : List (String × α)) (entries : Entries α), key ∉ added.map Prod.fst →
      (entries.insertAll added).lookup key = entries.lookup key := by
  intro added
  induction added with
  | nil => intro entries _; rfl
  | cons entry rest ih =>
      intro entries h
      simp only [List.map_cons, List.mem_cons, not_or] at h
      show ((entries.insert entry.1 entry.2).insertAll rest).lookup key = _
      rw [ih _ h.2, lookup_insert_of_ne h.1]

/-- Of entries under distinct keys each is found under its own. -/
theorem lookup_insertAll_of_mem {key : String} {value : α} :
    ∀ (added : List (String × α)) (entries : Entries α), (added.map Prod.fst).Nodup →
      (key, value) ∈ added → (entries.insertAll added).lookup key = some value := by
  intro added
  induction added with
  | nil => intro entries _ h; simp at h
  | cons entry rest ih =>
      intro entries hnodup hmem
      obtain ⟨hnot, hrest⟩ := List.nodup_cons.mp hnodup
      show ((entries.insert entry.1 entry.2).insertAll rest).lookup key = _
      rcases List.mem_cons.mp hmem with heq | hmem
      · subst heq
        rw [lookup_insertAll_of_not_mem rest _ hnot, lookup_insert_self]
      · exact ih _ hrest hmem

theorem lookup_ofList_of_mem {key : String} {value : α} {added : List (String × α)}
    (hnodup : (added.map Prod.fst).Nodup) (hmem : (key, value) ∈ added) :
    (ofList added).lookup key = some value :=
  lookup_insertAll_of_mem added [] hnodup hmem

/-! ### Keys -/

theorem map_fst_insert {key : String} (value : α) :
    ∀ {entries : Entries α}, key ∉ entries.map Prod.fst →
      ((entries.insert key value).map Prod.fst).Perm (key :: entries.map Prod.fst) := by
  intro entries
  induction entries with
  | nil => intro _; exact List.Perm.refl _
  | cons entry rest ih =>
      obtain ⟨k, v⟩ := entry
      intro h
      simp only [List.map_cons, List.mem_cons, not_or] at h
      simp only [insert]
      by_cases hlt : key < k
      · rw [if_pos hlt]
        exact List.Perm.refl _
      · rw [if_neg hlt, if_neg h.1]
        exact ((ih h.2).cons k).trans (List.Perm.swap key k _)

/-- Adding entries under distinct new keys adds these keys. -/
theorem map_fst_insertAll : ∀ {added : List (String × α)} {entries : Entries α},
    (added.map Prod.fst).Nodup → (∀ key ∈ added.map Prod.fst, key ∉ entries.map Prod.fst) →
      ((entries.insertAll added).map Prod.fst).Perm
        (added.map Prod.fst ++ entries.map Prod.fst) := by
  intro added
  induction added with
  | nil => intro entries _ _; exact List.Perm.refl _
  | cons entry rest ih =>
      intro entries hnodup hnew
      obtain ⟨hnot, hrest⟩ := List.nodup_cons.mp hnodup
      rw [List.map_cons, List.forall_mem_cons] at hnew
      have hkeys := map_fst_insert entry.2 hnew.1
      have hothers : ∀ key ∈ rest.map Prod.fst,
          key ∉ (entries.insert entry.1 entry.2).map Prod.fst := by
        intro key hmem
        rw [hkeys.mem_iff, List.mem_cons, not_or]
        exact ⟨fun heq => hnot (heq ▸ hmem), hnew.2 key hmem⟩
      exact (ih hrest hothers).trans ((hkeys.append_left _).trans List.perm_middle)

theorem map_fst_ofList {added : List (String × α)} (hnodup : (added.map Prod.fst).Nodup) :
    ((ofList added).map Prod.fst).Perm (added.map Prod.fst) := by
  have hnone : ∀ key ∈ added.map Prod.fst, key ∉ ([] : Entries α).map Prod.fst :=
    fun _ _ => List.not_mem_nil
  have h := map_fst_insertAll hnodup hnone
  rwa [List.map_nil, List.append_nil] at h

end FieldStore.Entries
