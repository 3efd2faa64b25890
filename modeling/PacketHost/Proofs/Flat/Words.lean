import PacketHost.Flat.Encoding
import PacketHost.Flat.Table
import PacketHost.Proofs.Halt
import PacketHost.Proofs.Word

/-!
# Stored words

A packet starts with words that are stored without space between them. `storedWord` is the word at an
index, `wordAt_eq` ties it to the checked read, and the other lemmas say which words a buffer stores that
was put together from words, and which bytes the words of a buffer make up.
-/

namespace PacketHost.Flat

/-- The word with an index among those stored from the start of a buffer on. -/
def storedWord (buffer : Bytes) (index : Nat) : Nat :=
  Word.ofDigits (buffer.extract (Word.width * index) (Word.width * index + Word.width)).toList

theorem wordAt_eq {buffer : Bytes} {index : Nat} (h : Word.width * index + Word.width < Word.limit) :
    wordAt buffer (Word.width * index) =
      if Word.width * index + Word.width ≤ buffer.size then .ok (storedWord buffer index)
      else Halt.refuse .invalidArgument := by
  unfold wordAt Word.add?
  rw [if_pos h]
  rfl

theorem wordAt_of_le {buffer : Bytes} {index : Nat} (h : Word.width * index + Word.width < Word.limit)
    (hb : Word.width * index + Word.width ≤ buffer.size) :
    wordAt buffer (Word.width * index) = .ok (storedWord buffer index) := by
  rw [wordAt_eq h, if_pos hb]

theorem storedWord_lt (buffer : Bytes) (index : Nat) : storedWord buffer index < Word.limit := by
  have h := Word.ofDigits_lt (buffer.extract (Word.width * index) (Word.width * index + Word.width)).toList
  refine Nat.lt_of_lt_of_le h ?_
  have hl : (buffer.extract (Word.width * index) (Word.width * index + Word.width)).toList.length ≤ 8 := by
    simp only [Array.length_toList, Array.size_extract, Word.width]
    omega
  calc 256 ^ _ ≤ 256 ^ 8 := Nat.pow_le_pow_right (by decide) hl
    _ = Word.limit := by decide

theorem encode_storedWord {buffer : Bytes} {index : Nat}
    (h : Word.width * index + Word.width ≤ buffer.size) :
    Word.encode (storedWord buffer index) =
      (buffer.extract (Word.width * index) (Word.width * index + Word.width)).toList := by
  apply Word.encode_ofDigits
  rw [Array.length_toList, Array.size_extract]
  omega

/-! ## Words of a buffer put together -/

theorem storedWord_append_right {a b : Bytes} {k : Nat} (ha : a.size = Word.width * k) (index : Nat) :
    storedWord (a ++ b) (index + k) = storedWord b index := by
  unfold storedWord
  rw [Array.extract_append, Array.extract_eq_empty_of_le (by rw [ha, Nat.mul_add]; omega),
    Array.empty_append, ha, Nat.mul_add]
  congr 3 <;> omega

theorem storedWord_append_left {a : Bytes} {index : Nat} (b : Bytes)
    (h : Word.width * index + Word.width ≤ a.size) :
    storedWord (a ++ b) index = storedWord a index := by
  have hb : b.extract (Word.width * index - a.size) (Word.width * index + Word.width - a.size) = #[] :=
    Array.extract_eq_empty_of_le (by omega)
  unfold storedWord
  rw [Array.extract_append, hb, Array.append_empty]

theorem storedWord_encode {w : Nat} (h : w < Word.limit) (rest : Bytes) :
    storedWord ((Word.encode w).toArray ++ rest) 0 = w := by
  rw [storedWord_append_left _ (by simp)]
  have hall : (Word.encode w).toArray.extract (Word.width * 0) (Word.width * 0 + Word.width) =
      (Word.encode w).toArray := Array.extract_eq_self_of_le (by simp)
  unfold storedWord
  rw [hall]
  exact Word.ofDigits_encode h

theorem toArray_encodeWords_cons (w : Nat) (words : List Nat) :
    (encodeWords (w :: words)).toArray = (Word.encode w).toArray ++ (encodeWords words).toArray := by
  simp [encodeWords]

theorem storedWord_encodeWords {words : List Nat} {index : Nat} (rest : Bytes) (hi : index < words.length)
    (hw : words[index] < Word.limit) :
    storedWord ((encodeWords words).toArray ++ rest) index = words[index] := by
  induction words generalizing index with
  | nil => simp at hi
  | cons w words ih =>
      rw [toArray_encodeWords_cons, Array.append_assoc]
      cases index with
      | zero => exact storedWord_encode hw _
      | succ index =>
          rw [storedWord_append_right (by simp)]
          exact ih (by simpa using hi) hw

/-! ## Bytes of the words of a buffer -/

/-- Storing again the words that a buffer starts with gives its bytes. -/
theorem encodeWords_storedWord {buffer : Bytes} {count : Nat} (h : Word.width * count ≤ buffer.size) :
    encodeWords ((List.range count).map (storedWord buffer)) =
      (buffer.extract 0 (Word.width * count)).toList := by
  induction count with
  | zero => simp [encodeWords]
  | succ count ih =>
      rw [Nat.mul_succ] at h
      have hlast : encodeWords [storedWord buffer count] =
          (buffer.extract (Word.width * count) (Word.width * count + Word.width)).toList := by
        simpa [encodeWords] using encode_storedWord h
      have happend : encodeWords ((List.range (count + 1)).map (storedWord buffer)) =
          encodeWords ((List.range count).map (storedWord buffer)) ++
            encodeWords [storedWord buffer count] := by
        simp [encodeWords, List.range_succ]
      rw [happend, hlast, ih (by omega), ← Array.toList_append, Array.extract_append_extract, Nat.mul_succ]
      congr 2
      all_goals omega

end PacketHost.Flat
