/-
Bytes of a region seen as words.

The memory keeps bytes, the fields are made of words.  A list of bytes is put together again from
its words and a rest that is shorter than a word; so the words of a list that is cut between two
words are those of its parts.  All ranges that a transfer accepts start and end there, and taking
a range out and putting one in commute with reading the bytes as words.
-/
import FieldStore.Proofs.Machine.Window

namespace FieldStore

/-! ### One word -/

theorem ofBytes_bytesOfWord (w : Word) :
    ((w.extractLsb' 24 8 ++ w.extractLsb' 16 8 ++ w.extractLsb' 8 8 ++ w.extractLsb' 0 8 :
      BitVec 32)) = w := by
  apply BitVec.eq_of_getLsbD_eq
  intro i hi
  simp only [BitVec.getLsbD_append, BitVec.getLsbD_extractLsb']
  by_cases h0 : i < 8
  · simp [h0]
  · by_cases h1 : i < 16
    · simp [h0, show i - 8 < 8 by omega, show 8 + (i - 8) = i by omega]
    · by_cases h2 : i < 24
      · simp [h0, show ¬ i - 8 < 8 by omega, show i - 8 - 8 < 8 by omega,
          show 16 + (i - 8 - 8) = i by omega]
      · simp [h0, show ¬ i - 8 < 8 by omega, show ¬ i - 8 - 8 < 8 by omega,
          show i - 8 - 8 - 8 < 8 by omega, show 24 + (i - 8 - 8 - 8) = i by omega]

theorem bytesOfWord_ofBytes (b₀ b₁ b₂ b₃ : Byte) :
    bytesOfWord (b₃ ++ b₂ ++ b₁ ++ b₀ : BitVec 32) = [b₀, b₁, b₂, b₃] := by
  have hbyte : ∀ (start : Nat) (b : Byte),
      (∀ i, i < 8 → (b₃ ++ b₂ ++ b₁ ++ b₀ : BitVec 32).getLsbD (start + i) = b.getLsbD i) →
        (b₃ ++ b₂ ++ b₁ ++ b₀ : BitVec 32).extractLsb' start 8 = b := by
    intro start b h
    apply BitVec.eq_of_getLsbD_eq
    intro i hi
    rw [BitVec.getLsbD_extractLsb', h i hi]
    simp [hi]
  rw [bytesOfWord, hbyte 0 b₀, hbyte 8 b₁, hbyte 16 b₂, hbyte 24 b₃]
  all_goals
    intro i hi
    simp only [BitVec.getLsbD_append]
    grind

/-! ### Runs of words -/

theorem wordBytes_pos : 0 < wordBytes := Nat.zero_lt_succ 3

theorem wordsOfBytes_cons (w : Word) (bytes : List Byte) :
    wordsOfBytes (bytesOfWord w ++ bytes) = w :: wordsOfBytes bytes := by
  simp only [bytesOfWord, List.cons_append, List.nil_append, wordsOfBytes, ofBytes_bytesOfWord]

theorem wordsOfBytes_append_bytesOfWords (words : List Word) (bytes : List Byte) :
    wordsOfBytes (bytesOfWords words ++ bytes) = words ++ wordsOfBytes bytes := by
  induction words with
  | nil => rfl
  | cons w words ih =>
      rw [bytesOfWords, List.flatMap_cons, List.append_assoc, wordsOfBytes_cons, List.cons_append]
      exact congrArg (w :: ·) ih

@[simp] theorem length_bytesOfWords (words : List Word) :
    (bytesOfWords words).length = words.length * wordBytes := by
  induction words with
  | nil => rfl
  | cons w words ih =>
      have hword : (bytesOfWord w).length = wordBytes := rfl
      rw [bytesOfWords, List.flatMap_cons, List.length_append, hword, List.length_cons,
        Nat.succ_mul, Nat.add_comm]
      exact congrArg (· + wordBytes) ih

/-- Dropping whole words drops their bytes. -/
theorem wordsOfBytes_drop (n : Nat) :
    ∀ bytes : List Byte,
      wordsOfBytes (bytes.drop (n * wordBytes)) = (wordsOfBytes bytes).drop n := by
  induction n with
  | zero => intro bytes; simp
  | succ n ih =>
      intro bytes
      rw [Nat.succ_mul]
      match bytes with
      | b₀ :: b₁ :: b₂ :: b₃ :: rest => exact ih rest
      | [] | [_] | [_, _] | [_, _, _] => simp [wordsOfBytes, wordBytes]

/-- Taking whole words takes their bytes. -/
theorem wordsOfBytes_take (n : Nat) :
    ∀ bytes : List Byte,
      wordsOfBytes (bytes.take (n * wordBytes)) = (wordsOfBytes bytes).take n := by
  induction n with
  | zero => intro bytes; simp [wordsOfBytes]
  | succ n ih =>
      intro bytes
      rw [Nat.succ_mul]
      match bytes with
      | b₀ :: b₁ :: b₂ :: b₃ :: rest => exact congrArg (_ :: ·) (ih rest)
      | [] | [_] | [_, _] | [_, _, _] => simp [wordsOfBytes, wordBytes]

theorem wordsOfBytes_zeros (n : Nat) :
    wordsOfBytes (List.replicate (n * wordBytes) 0) = List.replicate n 0 := by
  induction n with
  | zero => rfl
  | succ n ih =>
      have hsplit : List.replicate ((n + 1) * wordBytes) (0 : Byte)
          = bytesOfWord 0 ++ List.replicate (n * wordBytes) 0 := by
        rw [Nat.succ_mul, Nat.add_comm, ← List.replicate_append_replicate]
        rfl
      rw [hsplit, wordsOfBytes_cons, ih, List.replicate_succ]

/-! ### There and back -/

@[simp] theorem wordsOfBytes_bytesOfWords (words : List Word) :
    wordsOfBytes (bytesOfWords words) = words := by
  have h := wordsOfBytes_append_bytesOfWords words []
  have hnil : wordsOfBytes [] = [] := rfl
  rwa [List.append_nil, hnil, List.append_nil] at h

/-- A list of bytes is put together again from its words and a rest shorter than a word. -/
theorem exists_partialWord (bytes : List Byte) :
    ∃ rest, rest.length < wordBytes ∧ bytesOfWords (wordsOfBytes bytes) ++ rest = bytes := by
  induction bytes using wordsOfBytes.induct with
  | case1 b₀ b₁ b₂ b₃ bytes ih =>
      obtain ⟨rest, hrest, hbytes⟩ := ih
      refine ⟨rest, hrest, ?_⟩
      rw [wordsOfBytes, bytesOfWords, List.flatMap_cons, bytesOfWord_ofBytes, List.append_assoc]
      exact congrArg ([b₀, b₁, b₂, b₃] ++ ·) hbytes
  | case2 bytes hshort =>
      match bytes with
      | b₀ :: b₁ :: b₂ :: b₃ :: rest => exact (hshort b₀ b₁ b₂ b₃ rest rfl).elim
      | [] | [_] | [_, _] | [_, _, _] => exact ⟨_, by simp [wordBytes], rfl⟩

theorem length_wordsOfBytes_eq_div (bytes : List Byte) :
    (wordsOfBytes bytes).length = bytes.length / wordBytes := by
  obtain ⟨rest, hrest, hbytes⟩ := exists_partialWord bytes
  have hlength : (wordsOfBytes bytes).length * wordBytes + rest.length = bytes.length := by
    rw [← length_bytesOfWords, ← List.length_append, hbytes]
  rw [← hlength, Nat.add_comm, Nat.add_mul_div_right _ _ wordBytes_pos, Nat.div_eq_of_lt hrest,
    Nat.zero_add]

/-- The bytes of the words are those in front of the rest. -/
theorem bytesOfWords_wordsOfBytes_eq_take (bytes : List Byte) :
    bytesOfWords (wordsOfBytes bytes) = bytes.take (wordBytes * (bytes.length / wordBytes)) := by
  obtain ⟨rest, -, hbytes⟩ := exists_partialWord bytes
  have hlength : (bytesOfWords (wordsOfBytes bytes)).length
      = wordBytes * (bytes.length / wordBytes) := by
    rw [length_bytesOfWords, length_wordsOfBytes_eq_div, Nat.mul_comm]
  calc bytesOfWords (wordsOfBytes bytes)
      = (bytesOfWords (wordsOfBytes bytes) ++ rest).take
          (bytesOfWords (wordsOfBytes bytes)).length := List.take_left.symm
    _ = bytes.take (wordBytes * (bytes.length / wordBytes)) := by rw [hbytes, hlength]

/-! ### Whole words -/

theorem length_wordsOfBytes {n : Nat} {bytes : List Byte} (h : bytes.length = n * wordBytes) :
    (wordsOfBytes bytes).length = n := by
  rw [length_wordsOfBytes_eq_div, h, Nat.mul_div_cancel _ wordBytes_pos]

/-- Whole words leave no rest. -/
theorem bytesOfWords_wordsOfBytes {n : Nat} {bytes : List Byte}
    (h : bytes.length = n * wordBytes) : bytesOfWords (wordsOfBytes bytes) = bytes := by
  rw [bytesOfWords_wordsOfBytes_eq_take, h, Nat.mul_div_cancel _ wordBytes_pos, Nat.mul_comm, ← h,
    List.take_length]

/-- A front of whole words is read on its own. -/
theorem wordsOfBytes_append (n : Nat) (front back : List Byte)
    (h : front.length = n * wordBytes) :
    wordsOfBytes (front ++ back) = wordsOfBytes front ++ wordsOfBytes back :=
  calc wordsOfBytes (front ++ back)
      = wordsOfBytes (bytesOfWords (wordsOfBytes front) ++ back) := by
        rw [bytesOfWords_wordsOfBytes h]
    _ = wordsOfBytes front ++ wordsOfBytes back := wordsOfBytes_append_bytesOfWords _ _

/-! ### Ranges between two words -/

theorem wordsOfBytes_window (start count : Nat) (bytes : List Byte) :
    wordsOfBytes (window (start * wordBytes) (count * wordBytes) bytes)
      = window start count (wordsOfBytes bytes) := by
  rw [window, wordsOfBytes_take, wordsOfBytes_drop, window]

theorem wordsOfBytes_overwrite {start : Nat} {words : List Word} {bytes : List Byte}
    (h : (start + words.length) * wordBytes ≤ bytes.length) :
    wordsOfBytes (overwrite (start * wordBytes) (bytesOfWords words) bytes)
      = overwrite start words (wordsOfBytes bytes) := by
  rw [Nat.add_mul] at h
  have hfront : (bytes.take (start * wordBytes)).length = start * wordBytes := by
    rw [List.length_take]
    omega
  rw [overwrite, overwrite, List.append_assoc, wordsOfBytes_append start _ _ hfront,
    wordsOfBytes_append_bytesOfWords, wordsOfBytes_take, length_bytesOfWords, ← Nat.add_mul,
    wordsOfBytes_drop, List.append_assoc]

/-- The same from the words to the bytes. -/
theorem overwrite_bytesOfWords {start : Nat} {patch words : List Word}
    (h : start + patch.length ≤ words.length) :
    overwrite (start * wordBytes) (bytesOfWords patch) (bytesOfWords words)
      = bytesOfWords (overwrite start patch words) := by
  have hfits : (start + patch.length) * wordBytes ≤ (bytesOfWords words).length := by
    rw [length_bytesOfWords]
    exact Nat.mul_le_mul_right _ h
  have hlength : (overwrite (start * wordBytes) (bytesOfWords patch) (bytesOfWords words)).length
      = words.length * wordBytes := by
    rw [length_overwrite, length_bytesOfWords]
    rwa [length_bytesOfWords, ← Nat.add_mul]
  rw [← bytesOfWords_wordsOfBytes hlength, wordsOfBytes_overwrite hfits, wordsOfBytes_bytesOfWords]

theorem bytesOfWords_zeros (n : Nat) :
    bytesOfWords (List.replicate n 0) = List.replicate (n * wordBytes) 0 := by
  rw [← wordsOfBytes_zeros, bytesOfWords_wordsOfBytes List.length_replicate]

end FieldStore
