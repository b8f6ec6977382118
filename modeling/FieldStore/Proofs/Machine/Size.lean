/-
When bounded arithmetic has a result.

Each operation of `Size` has at most one result, the exact one, so what a success tells is the
value and the bound that it respects.  Sequences of operations are opened by `bind_eq_ok`.
-/
import FieldStore.Machine.Size
import Mathlib.Algebra.Group.Nat.Defs

namespace FieldStore

theorem bind_eq_ok {ε α β : Type} {x : Except ε α} {f : α → Except ε β} {b : β} :
    (x >>= f) = .ok b ↔ ∃ a, x = .ok a ∧ f a = .ok b := by
  cases x with
  | error e => simp [bind, Except.bind]
  | ok a => simp [bind, Except.bind]

theorem bind_eq_error {ε α β : Type} {x : Except ε α} {f : α → Except ε β} {e : ε} :
    x >>= f = .error e ↔ x = .error e ∨ ∃ a, x = .ok a ∧ f a = .error e := by
  cases x with
  | error e' => simp [bind, Except.bind]
  | ok a => simp [bind, Except.bind]

/-- A list all of whose items have a result has the list of them. -/
theorem mapM_eq_ok_map {ε α β : Type} {f : α → Except ε β} {g : α → β} :
    ∀ {items : List α}, (∀ item ∈ items, f item = .ok (g item)) →
      items.mapM f = .ok (items.map g) := by
  intro items
  induction items with
  | nil => intro _; rfl
  | cons item rest ih =>
      intro h
      rw [List.mapM_cons, h item List.mem_cons_self,
        ih fun other hmem => h other (List.mem_cons_of_mem _ hmem)]
      rfl

namespace Size

variable {ε : Type} {a b c : Nat}

theorem add_eq_ok_iff : (add a b : Outcome ε Nat) = .ok c ↔ c = a + b ∧ a + b < bound := by
  unfold add
  by_cases h : a + b < bound
  · simp [h, eq_comm]
  · simp [h]

theorem add_eq_error {failure : Failure ε} (h : (add a b : Outcome ε Nat) = .error failure) :
    failure = .fault .overflow := by
  unfold add at h
  by_cases hlt : a + b < bound
  · rw [if_pos hlt] at h
    cases h
  · rw [if_neg hlt] at h
    cases h
    rfl

theorem mul_eq_ok_iff : (mul a b : Outcome ε Nat) = .ok c ↔ c = a * b ∧ a * b < bound := by
  unfold mul
  by_cases h : a * b < bound
  · simp [h, eq_comm]
  · simp [h]

theorem mul_eq_error {failure : Failure ε} (h : (mul a b : Outcome ε Nat) = .error failure) :
    failure = .fault .overflow := by
  unfold mul at h
  by_cases hlt : a * b < bound
  · rw [if_pos hlt] at h
    cases h
  · rw [if_neg hlt] at h
    cases h
    rfl

theorem reserve_eq_ok_iff {u : Unit} :
    (reserve a b : Outcome ε Unit) = .ok u ↔ a * b ≤ objectLimit := by
  unfold reserve
  by_cases h : a * b ≤ objectLimit
  · simp [h]
  · simp [h]

theorem reserve_eq_error {failure : Failure ε}
    (h : (reserve a b : Outcome ε Unit) = .error failure) : failure = .fault .capacity := by
  unfold reserve at h
  by_cases hle : a * b ≤ objectLimit
  · rw [if_pos hle] at h
    cases h
  · rw [if_neg hle] at h
    cases h
    rfl

/-- The product of a list that was multiplied out without overflow. -/
theorem foldlM_mul_eq_ok :
    ∀ {sizes : List Nat} {start n : Nat},
      (sizes.foldlM mul start : Outcome ε Nat) = .ok n → start < bound →
        n = start * sizes.prod ∧ n < bound := by
  intro sizes
  induction sizes with
  | nil =>
      intro start n h hstart
      simp only [List.foldlM_nil, pure, Except.pure, Except.ok.injEq] at h
      subst h
      exact ⟨by simp, hstart⟩
  | cons d rest ih =>
      intro start n h hstart
      rw [List.foldlM_cons, bind_eq_ok] at h
      obtain ⟨m, hm, hrest⟩ := h
      obtain ⟨rfl, hlt⟩ := mul_eq_ok_iff.mp hm
      obtain ⟨hn, hbound⟩ := ih hrest hlt
      exact ⟨by rw [hn, List.prod_cons, Nat.mul_assoc], hbound⟩

theorem product_eq_ok {sizes : List Nat} {n : Nat}
    (h : (product sizes : Outcome ε Nat) = .ok n) : n = sizes.prod ∧ n < bound := by
  obtain ⟨hn, hlt⟩ := foldlM_mul_eq_ok h (by decide)
  exact ⟨by rw [hn, Nat.one_mul], hlt⟩

/-- A list that was not multiplied out ran into the bound. -/
theorem foldlM_mul_eq_error {failure : Failure ε} :
    ∀ {sizes : List Nat} {start : Nat},
      (sizes.foldlM mul start : Outcome ε Nat) = .error failure → failure = .fault .overflow := by
  intro sizes
  induction sizes with
  | nil => intro start h; cases h
  | cons d rest ih =>
      intro start h
      rw [List.foldlM_cons, bind_eq_error] at h
      rcases h with h | ⟨m, -, hrest⟩
      · exact mul_eq_error h
      · exact ih hrest

/-- A product that does not fit is not multiplied out, whichever partial product is too large. -/
theorem product_of_le {sizes : List Nat} (hle : bound ≤ sizes.prod) :
    (product sizes : Outcome ε Nat) = .error (.fault .overflow) := by
  cases h : (product sizes : Outcome ε Nat) with
  | error failure => rw [foldlM_mul_eq_error h]
  | ok n =>
      obtain ⟨rfl, hlt⟩ := product_eq_ok h
      exact absurd hlt (Nat.not_lt.mpr hle)

/-- A product that fits is multiplied out without overflow, because no factor is zero and so no
partial product exceeds the whole one. -/
theorem foldlM_mul_of_lt :
    ∀ {sizes : List Nat} {start : Nat}, (∀ d ∈ sizes, 0 < d) → start * sizes.prod < bound →
      (sizes.foldlM mul start : Outcome ε Nat) = .ok (start * sizes.prod) := by
  intro sizes
  induction sizes with
  | nil =>
      intro start _ _
      rw [List.foldlM_nil, List.prod_nil, Nat.mul_one]
      rfl
  | cons d rest ih =>
      intro start hpos hlt
      have hrest : ∀ d ∈ rest, 0 < d := fun d' hmem => hpos d' (List.mem_cons_of_mem _ hmem)
      rw [List.prod_cons, ← Nat.mul_assoc] at hlt ⊢
      have hfirst : start * d < bound :=
        Nat.lt_of_le_of_lt (Nat.le_mul_of_pos_right _ (List.prod_pos_iff_forall_pos_nat.mpr hrest))
          hlt
      rw [List.foldlM_cons, bind_eq_ok]
      exact ⟨start * d, mul_eq_ok_iff.mpr ⟨rfl, hfirst⟩, ih hrest hlt⟩

theorem product_of_lt {sizes : List Nat} (hpos : ∀ d ∈ sizes, 0 < d) (hlt : sizes.prod < bound) :
    (product sizes : Outcome ε Nat) = .ok sizes.prod := by
  have h : (sizes.foldlM mul 1 : Outcome ε Nat) = .ok (1 * sizes.prod) :=
    foldlM_mul_of_lt hpos (by rwa [Nat.one_mul])
  rwa [Nat.one_mul] at h

end Size

end FieldStore
