/-
The two views of a list of bytes.

What is read from a device arrives as bytes and is handed on as words, once as integers and once
as floating-point numbers.  Whatever makes up a word is kept, so the bytes are had back from the
integers; what is left over at the end is dropped, being shorter than a word.  A list that is cut
between two words is seen as its parts are.

That the bytes of a word are little-endian is said of the integer it stands for: the byte with the
lowest weight comes first, and the last one carries the sign.
-/
import FieldStore.Proofs.Machine.Bytes

namespace FieldStore

/-! ### Little-endian words -/

theorem toInt_ofBytes (b₀ b₁ b₂ b₃ : Byte) :
    (b₃ ++ b₂ ++ b₁ ++ b₀ : BitVec 32).toInt
      = b₀.toNat + 0x100 * b₁.toNat + 0x10000 * b₂.toNat + 0x1000000 * b₃.toInt := by
  have hlowest : ∀ {n : Nat} (x : BitVec (n + 1)) (b : Byte),
      (x ++ b).toInt = 0x100 * x.toInt + b.toNat := by
    intro n x b
    rw [BitVec.toInt_append, if_neg (by simp)]
    rfl
  rw [hlowest, hlowest, hlowest]
  omega

/-- The bytes of a word, by the integer it stands for. -/
theorem exists_bytesOfWord (w : Word) :
    ∃ b₀ b₁ b₂ b₃ : Byte, bytesOfWord w = [b₀, b₁, b₂, b₃] ∧
      w.toInt = b₀.toNat + 0x100 * b₁.toNat + 0x10000 * b₂.toNat + 0x1000000 * b₃.toInt := by
  refine ⟨_, _, _, _, rfl, ?_⟩
  rw [← toInt_ofBytes, ofBytes_bytesOfWord]

namespace Lanes

/-! ### Both views -/

theorem ofBytes_append {front : List Byte} (h : front.length % wordBytes = 0) (back : List Byte) :
    ofBytes (front ++ back) = ofBytes front ++ ofBytes back := by
  have hwhole : front.length = front.length / wordBytes * wordBytes :=
    (Nat.div_mul_cancel (Nat.dvd_of_mod_eq_zero h)).symm
  calc ofBytes (front ++ back)
      = ofWords (wordsOfBytes front ++ wordsOfBytes back) := by
        rw [ofBytes, wordsOfBytes_append _ _ _ hwhole]
    _ = ofBytes front ++ ofBytes back := ofWords_append _ _

/-- **Bytes are seen twice.**  Both views have as many entries as there are whole words in the
bytes.  The little-endian bytes of the integers are all bytes in front of the rest, and the
floating-point numbers are the integers taken bit by bit.  The bytes of a run of words are seen as
that run, and behind whole words other bytes are seen as they are on their own.  Of the four bytes
of a word the first one has the lowest weight, and the last one is signed. -/
theorem bytes_in_both_views (bytes back : List Byte) (words : List Word) :
    ((ofBytes bytes).ints.length = bytes.length / wordBytes ∧
      (ofBytes bytes).floats.length = bytes.length / wordBytes ∧
      bytesOfWords (ofBytes bytes).ints = bytes.take (wordBytes * (bytes.length / wordBytes)) ∧
      (ofBytes bytes).floats = (ofBytes bytes).ints.map Binary32.ofWord) ∧
    ofBytes (bytesOfWords words) = ofWords words ∧
    (bytes.length % wordBytes = 0 → ofBytes (bytes ++ back) = ofBytes bytes ++ ofBytes back) ∧
    ∀ w : Word, ∃ b₀ b₁ b₂ b₃ : Byte, bytesOfWord w = [b₀, b₁, b₂, b₃] ∧
      w.toInt = b₀.toNat + 0x100 * b₁.toNat + 0x10000 * b₂.toNat + 0x1000000 * b₃.toInt := by
  have hcount : (wordsOfBytes bytes).length = bytes.length / wordBytes :=
    length_wordsOfBytes_eq_div bytes
  refine ⟨⟨?_, ?_, ?_, rfl⟩, ?_, fun h => ofBytes_append h back, exists_bytesOfWord⟩
  · rw [ofBytes, length_ints_ofWords, hcount]
  · rw [ofBytes, length_floats_ofWords, hcount]
  · exact bytesOfWords_wordsOfBytes_eq_take bytes
  · rw [ofBytes, wordsOfBytes_bytesOfWords]

/-- One and minus one, and behind them one and a half with two bytes left over.  Taken as a number,
minus one is none. -/
theorem bytes_in_both_views_with_rest :
    let front : List Byte := [1, 0, 0, 0, 0xff, 0xff, 0xff, 0xff]
    let back : List Byte := [0, 0, 0xc0, 0x3f, 7, 7]
    front.length % wordBytes = 0 ∧
      ofBytes (front ++ back) = ofBytes front ++ ofBytes back ∧
      ofBytes (bytesOfWords [1, -1]) = ofWords [1, -1] ∧
      (ofBytes front).ints.map BitVec.toInt = [1, -1] ∧
      (ofBytes front).floats.map Binary32.isNaN = [false, true] ∧
      (ofBytes back).floats = [⟨0x3fc00000⟩] ∧
      bytesOfWords (ofBytes back).ints = [0, 0, 0xc0, 0x3f] := by
  intro front back
  have hwhole : front.length % wordBytes = 0 := by decide
  obtain ⟨-, hwords, happend, -⟩ := bytes_in_both_views front back [1, -1]
  obtain ⟨⟨-, -, hbytes, -⟩, -⟩ := bytes_in_both_views back [] []
  exact ⟨hwhole, happend hwhole, hwords, by decide, by decide, by decide, hbytes.trans (by decide)⟩

end Lanes

end FieldStore
