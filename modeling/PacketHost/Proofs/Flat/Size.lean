import PacketHost.Flat.Size
import PacketHost.Proofs.Flat.Layout

/-!
# The packed size is exact

The packed size is added up in words, with every sum checked. Checking each sum is the same as checking the last one
(`sizeFor_eq_checked`), so no check in between refuses a size that fits, and the order of the headers plays no part.
-/

namespace PacketHost

namespace Word

/-- A number, if it is a word. -/
def checked? (n : Nat) : Option Nat := if n < limit then some n else none

/-- A sum is no word if a part of it is none, so only the whole sum has to be checked. -/
theorem checked?_bind_add? (a b : Nat) : (checked? a >>= fun sum => add? sum b) = checked? (a + b) := by
  unfold checked? add?
  by_cases ha : a < limit
  · rw [if_pos ha]
    rfl
  · rw [if_neg ha, if_neg (by omega)]
    rfl

end Word

namespace Flat

/-- The number of bytes in keys and values of the given lengths. -/
def contentOf (pairs : List (Nat × Nat)) : Nat := (pairs.map fun p => p.1 + p.2).sum

/-- The packed size over natural numbers. -/
def exactSize (pairs : List (Nat × Nat)) (payloadLength : Nat) : Nat :=
  tableSize pairs.length + contentOf pairs + payloadLength

/-! ## The running size -/

theorem tableLength?_eq_checked (count : Nat) : tableLength? count = Word.checked? (tableSize count) := by
  have hmul : Word.mul? count (2 * Word.width) = Word.checked? (count * (2 * Word.width)) := rfl
  unfold tableLength?
  rw [hmul, Word.checked?_bind_add?, tableSize, Nat.mul_succ, Nat.mul_comm]

theorem checked?_bind_addPair? (size : Nat) (pair : Nat × Nat) :
    (Word.checked? size >>= fun sum => addPair? sum pair) = Word.checked? (size + pair.1 + pair.2) := by
  have hpair : (fun sum => addPair? sum pair) =
      fun sum => Word.add? sum pair.1 >>= fun withKey => Word.add? withKey pair.2 := rfl
  rw [hpair, ← bind_assoc, Word.checked?_bind_add?, Word.checked?_bind_add?]

theorem addPairs?_cons (size : Nat) (pair : Nat × Nat) (pairs : List (Nat × Nat)) :
    addPairs? size (pair :: pairs) = addPair? size pair >>= fun sum => addPairs? sum pairs := by
  rw [addPairs?]
  cases addPair? size pair <;> rfl

theorem checked?_bind_addPairs? (size : Nat) (pairs : List (Nat × Nat)) :
    (Word.checked? size >>= fun sum => addPairs? sum pairs) = Word.checked? (size + contentOf pairs) := by
  induction pairs generalizing size with
  | nil => exact bind_pure (Word.checked? size)
  | cons pair pairs ih =>
      have hcontent : contentOf (pair :: pairs) = pair.1 + pair.2 + contentOf pairs := rfl
      simp only [addPairs?_cons]
      rw [← bind_assoc, checked?_bind_addPair?, ih, hcontent]
      congr 1
      omega

/-- The size that is reached once the table and some of the headers are counted. -/
theorem running_size (count : Nat) (before : List (Nat × Nat)) :
    (tableLength? count >>= fun table => addPairs? table before) =
      Word.checked? (tableSize count + contentOf before) := by
  rw [tableLength?_eq_checked, checked?_bind_addPairs?]

theorem sizeFor_eq_checked (pairs : List (Nat × Nat)) (payloadLength : Nat) :
    sizeFor pairs payloadLength = orTooLarge (Word.checked? (exactSize pairs payloadLength)) := by
  have hsize : sizeFor pairs payloadLength =
      orTooLarge (tableLength? pairs.length >>= fun table => addPairs? table pairs >>= fun content =>
        Word.add? content payloadLength) := rfl
  rw [hsize, ← bind_assoc, running_size, Word.checked?_bind_add?, exactSize]

theorem sizeFor_eq (pairs : List (Nat × Nat)) (payloadLength : Nat) : sizeFor pairs payloadLength =
    if exactSize pairs payloadLength < Word.limit then .ok (exactSize pairs payloadLength)
    else .error .tooLarge := by
  rw [sizeFor_eq_checked, Word.checked?]
  split <;> rfl

theorem exactSize_perm {pairs pairs' : List (Nat × Nat)} (h : pairs'.Perm pairs) (payloadLength : Nat) :
    exactSize pairs' payloadLength = exactSize pairs payloadLength := by
  have hcontent : contentOf pairs' = contentOf pairs := (h.map _).sum_eq
  rw [exactSize, exactSize, h.length_eq, hcontent]

/-! ## The size of a packet -/

theorem exactSize_lengths (headers : List Header) (payload : Bytes) :
    exactSize (headers.map Header.lengths) payload.size = (encode headers payload).size := by
  rw [encode_eq_layout, size_layout]
  unfold exactSize payloadStart contentOf
  rw [List.length_map, List.map_map, size_content]
  rfl

/-- The packed size of a packet is the number of its bytes, if that is a word. -/
theorem size_eq (headers : List Header) (payload : Bytes) : size headers payload =
    if (encode headers payload).size < Word.limit then .ok (encode headers payload).size
    else .error .tooLarge := by
  unfold size
  rw [sizeFor_eq, exactSize_lengths]

theorem size_eq_ok_iff {headers : List Header} {payload : Bytes} {n : Nat} :
    size headers payload = .ok n ↔
      (encode headers payload).size = n ∧ (encode headers payload).size < Word.limit := by
  rw [size_eq]
  by_cases h : (encode headers payload).size < Word.limit
  · rw [if_pos h, Except.ok.injEq]
    exact ⟨fun he => ⟨he, h⟩, And.left⟩
  · rw [if_neg h]
    constructor
    · intro he
      cases he
    · rintro ⟨-, he⟩
      exact absurd he h

/-! ## Every size on the way -/

/-- The packed size of any headers and payload, with each size that is reached on the way: the whole sum decides, and
what is reached is never wrapped. -/
theorem size_exact (pairs : List (Nat × Nat)) (payloadLength : Nat) :
    let fit := fun n : Nat => if n ≤ 2 ^ 64 - 1 then some n else none
    let table := 16 + 16 * pairs.length
    let total := table + contentOf pairs + payloadLength
    (sizeFor pairs payloadLength = if total ≤ 2 ^ 64 - 1 then .ok total else .error .tooLarge) ∧
    (∀ pairs', pairs'.Perm pairs → sizeFor pairs' payloadLength = sizeFor pairs payloadLength) ∧
    tableLength? pairs.length = fit table ∧
    ∀ before pair rest, pairs = before ++ pair :: rest →
      let reached := tableLength? pairs.length >>= fun size => addPairs? size before
      reached = fit (table + contentOf before) ∧
      (reached >>= fun size => Word.add? size pair.1) = fit (table + contentOf before + pair.1) ∧
      (reached >>= fun size => addPair? size pair) = fit (table + contentOf before + pair.1 + pair.2) := by
  intro fit table total
  have hfit : ∀ n, Word.checked? n = fit n := fun n => if_congr Word.lt_limit_iff rfl rfl
  have htable : tableSize pairs.length = table := tableSize_eq pairs.length
  have htotal : exactSize pairs payloadLength = total := by rw [exactSize, htable]
  refine ⟨?_, fun pairs' hperm => ?_, ?_, fun before pair rest _ => ?_⟩
  · rw [sizeFor_eq, htotal]
    exact if_congr Word.lt_limit_iff rfl rfl
  · rw [sizeFor_eq_checked, sizeFor_eq_checked, exactSize_perm hperm]
  · rw [tableLength?_eq_checked, htable, hfit]
  · intro reached
    have hreached : reached = Word.checked? (table + contentOf before) := by
      rw [← htable]
      exact running_size pairs.length before
    rw [hreached]
    refine ⟨hfit _, ?_, ?_⟩
    · rw [Word.checked?_bind_add?, hfit]
    · rw [checked?_bind_addPair?, hfit]

/-- The largest size that there is, reached with almost `2 ^ 60` headers in either order; one more byte is too many. -/
theorem size_exact_largest :
    let empty := List.replicate (2 ^ 60 - 3) (0, 0)
    sizeFor ((7, 8) :: empty) 0 = .ok (2 ^ 64 - 1) ∧ sizeFor ((7, 8) :: empty) 1 = .error .tooLarge ∧
      (empty ++ [(7, 8)]).Perm ((7, 8) :: empty) ∧ sizeFor (empty ++ [(7, 8)]) 0 = .ok (2 ^ 64 - 1) := by
  obtain ⟨n, hn⟩ : ∃ n, n = 2 ^ 60 - 3 := ⟨_, rfl⟩
  rw [← hn]
  intro empty
  have hcontent : contentOf ((7, 8) :: empty) = 15 := by simp [contentOf, empty]
  have hperm : (empty ++ [(7, 8)]).Perm ((7, 8) :: empty) := List.perm_append_singleton (7, 8) empty
  have hfull : 16 + 16 * (n + 1) + 15 = 2 ^ 64 - 1 := by omega
  obtain ⟨hsize, hsame, -⟩ := size_exact ((7, 8) :: empty) 0
  obtain ⟨hmore, -⟩ := size_exact ((7, 8) :: empty) 1
  rw [List.length_cons, List.length_replicate, hcontent, hfull] at hsize hmore
  rw [if_pos (Nat.le_refl _)] at hsize
  rw [if_neg (Nat.not_succ_le_self _)] at hmore
  exact ⟨hsize, hmore, hperm, (hsame _ hperm).trans hsize⟩

end Flat

end PacketHost
