import PacketHost.Proofs.Flat.Words

/-!
# What the decoder accepts

The decoder reads word by word, with each sum checked. This module says what it accepts over natural numbers,
without the order of the checks: `ofBytes_eq` for the frame of a packet and `header_eq` for each header.
No step traps on the way.
-/

namespace PacketHost.Flat

/-- The number of bytes in the offset table of `count` headers. -/
def tableSize (count : Nat) : Nat := 2 * Word.width * (count + 1)

theorem tableSize_eq (count : Nat) : tableSize count = 16 + 16 * count := by
  unfold tableSize Word.width
  omega

theorem tableLength?_of_lt {count : Nat} (h : tableSize count < Word.limit) :
    tableLength? count = some (tableSize count) := by
  have hsum : count * (2 * Word.width) + 2 * Word.width = tableSize count := by
    unfold tableSize
    rw [Nat.mul_comm count, Nat.mul_succ]
  unfold tableLength? Word.mul? Word.add?
  rw [if_pos (by omega)]
  simp only [Option.bind_eq_bind, Option.bind_some, hsum]
  rw [if_pos h]

theorem tableLength?_of_le {count : Nat} (h : Word.limit ≤ tableSize count) :
    tableLength? count = none := by
  unfold tableLength? Word.mul? Word.add?
  split
  · simp only [Option.bind_eq_bind, Option.bind_some]
    rw [if_neg]
    simp only [tableSize, Word.width] at h ⊢
    omega
  · rfl

theorem tableLength_of_lt {count : Nat} (h : tableSize count < Word.limit) :
    tableLength count = .ok (tableSize count) := by
  unfold tableLength
  rw [tableLength?_of_lt h]

/-- The position at which a piece of a packet starts, for the piece after the last one that of the payload. -/
def offset (buffer : Bytes) (piece : Nat) : Nat := storedWord buffer (piece + 1)

theorem offset_lt (buffer : Bytes) (piece : Nat) : offset buffer piece < Word.limit := storedWord_lt _ _

/-! ## The frame -/

def countOf (buffer : Bytes) : Nat := storedWord buffer 0

/-- The position at which the payload starts, in the last word of the offset table. -/
def payloadOf (buffer : Bytes) : Nat := offset buffer (2 * countOf buffer)

/-- Offset table and payload lie in the buffer, in this order. -/
def Framed (buffer : Bytes) : Prop :=
  tableSize (countOf buffer) < Word.limit ∧ tableSize (countOf buffer) ≤ payloadOf buffer ∧
    payloadOf buffer ≤ buffer.size

instance (buffer : Bytes) : Decidable (Framed buffer) := inferInstanceAs (Decidable (_ ∧ _ ∧ _))

/-- A buffer with the count and the payload position that it stores. -/
def tableOf (buffer : Bytes) : Table := ⟨buffer, countOf buffer, payloadOf buffer⟩

@[simp] theorem tableOf_buffer (buffer : Bytes) : (tableOf buffer).buffer = buffer := rfl

@[simp] theorem tableOf_count (buffer : Bytes) : (tableOf buffer).count = countOf buffer := rfl

@[simp] theorem tableOf_payloadStart (buffer : Bytes) :
    (tableOf buffer).payloadStart = payloadOf buffer := rfl

theorem ofBytes_eq (buffer : Bytes) : Table.ofBytes buffer =
    if Framed buffer then .ok (tableOf buffer) else Halt.refuse .invalidArgument := by
  have hzero : wordAt buffer 0 = if Word.width ≤ buffer.size then .ok (countOf buffer)
      else Halt.refuse .invalidArgument := wordAt_eq (by decide : Word.width * 0 + Word.width < Word.limit)
  have hmin : 2 * Word.width ≤ tableSize (countOf buffer) := Nat.le_mul_of_pos_right _ (Nat.succ_pos _)
  have hw : Word.width = 8 := rfl
  unfold Table.ofBytes
  rw [hzero]
  by_cases hroom : Word.width ≤ buffer.size
  · rw [if_pos hroom, ok_bind]
    by_cases hlt : tableSize (countOf buffer) < Word.limit
    · rw [tableLength_of_lt hlt, ok_bind]
      by_cases hle : buffer.size < tableSize (countOf buffer)
      · rw [if_pos hle, if_neg (fun hf => by have := hf.2; omega)]
      · have hlast : tableSize (countOf buffer) - Word.width = Word.width * (2 * countOf buffer + 1) := by
          simp only [tableSize, hw]
          omega
        have hend : Word.width * (2 * countOf buffer + 1) + Word.width = tableSize (countOf buffer) := by
          omega
        rw [if_neg hle, Trap.sub_of_le (by omega), Halt.ofTrap_ok, ok_bind, hlast,
          wordAt_of_le (by omega) (by omega), ok_bind]
        -- The last word of the table is the payload position, as the table has an even number of words.
        change (if payloadOf buffer < tableSize (countOf buffer) ∨ buffer.size < payloadOf buffer then
            Halt.refuse Status.invalidArgument else Except.ok (tableOf buffer)) = _
        by_cases hf : Framed buffer
        · have := hf.2
          rw [if_neg (by omega), if_pos hf]
        · rw [if_pos (by unfold Framed at hf; omega), if_neg hf]
    · unfold tableLength
      rw [tableLength?_of_le (by omega), if_neg (fun hf => hlt hf.1)]
      rfl
  · rw [if_neg hroom, if_neg (fun hf => by have := hf.2; omega)]
    rfl

theorem ofBytes_of_framed {buffer : Bytes} (h : Framed buffer) :
    Table.ofBytes buffer = .ok (tableOf buffer) := by
  rw [ofBytes_eq, if_pos h]

theorem ofBytes_of_not_framed {buffer : Bytes} (h : ¬Framed buffer) :
    Table.ofBytes buffer = Halt.refuse .invalidArgument := by
  rw [ofBytes_eq, if_neg h]

theorem ofBytes_eq_ok_iff {buffer : Bytes} {t : Table} :
    Table.ofBytes buffer = .ok t ↔ Framed buffer ∧ t = tableOf buffer := by
  by_cases h : Framed buffer
  · simp only [ofBytes_of_framed h, Except.ok.injEq, h, true_and]
    exact eq_comm
  · simp [ofBytes_of_not_framed h, h, Halt.refuse]

/-! ## Headers -/

/-- Key and value of a header lie one after the other between offset table and payload. -/
def InOrder (buffer : Bytes) (index : Nat) : Prop :=
  tableSize (countOf buffer) ≤ offset buffer (2 * index) ∧
    offset buffer (2 * index) ≤ offset buffer (2 * index + 1) ∧
    offset buffer (2 * index + 1) ≤ offset buffer (2 * index + 2) ∧
    offset buffer (2 * index + 2) ≤ payloadOf buffer

instance (buffer : Bytes) (index : Nat) : Decidable (InOrder buffer index) :=
  inferInstanceAs (Decidable (_ ∧ _ ∧ _ ∧ _))

/-- The part of a buffer from the start of a piece to the start of the next one. -/
def pieceExtent (buffer : Bytes) (piece : Nat) : Extent := ⟨offset buffer piece, offset buffer (piece + 1)⟩

theorem wordAt_offset {buffer : Bytes} (hf : Framed buffer) {piece : Nat} (hp : piece ≤ 2 * countOf buffer) :
    wordAt buffer (Word.width * (piece + 1)) = .ok (offset buffer piece) := by
  obtain ⟨hlt, hle, hsize⟩ := hf
  apply wordAt_of_le
  all_goals
    simp only [tableSize, Word.width] at *
    omega

theorem entry_eq {index : Nat} (h : tableSize index < Word.limit) :
    Table.entry index = .ok (Word.width * (2 * index + 1)) := by
  simp only [tableSize, Word.width] at h
  unfold Table.entry Word.width
  rw [Trap.mul_of_lt (by omega), ok_bind, Trap.mul_of_lt (by omega), ok_bind, Trap.add_of_lt (by omega)]
  congr 1
  omega

theorem delimiters_eq {buffer : Bytes} {index : Nat} (hf : Framed buffer) (hi : index < countOf buffer) :
    (tableOf buffer).delimiters index =
      .ok (offset buffer (2 * index), offset buffer (2 * index + 1), offset buffer (2 * index + 2)) := by
  have hlt := hf.1
  have hentry : tableSize index < Word.limit := by
    simp only [tableSize, Word.width] at *
    omega
  have hsecond : Trap.add (Word.width * (2 * index + 1)) Word.width =
      .ok (Word.width * (2 * index + 1 + 1)) := by
    apply Trap.add_of_lt
    simp only [tableSize, Word.width] at *
    omega
  have hthird : Trap.add (Word.width * (2 * index + 1)) (2 * Word.width) =
      .ok (Word.width * (2 * index + 2 + 1)) := by
    rw [Trap.add_of_lt]
    all_goals
      simp only [tableSize, Word.width, Except.ok.injEq] at *
      omega
  unfold Table.delimiters
  simp only [entry_eq hentry, hsecond, hthird, Halt.ofTrap_ok, ok_bind, tableOf_buffer]
  rw [wordAt_offset hf (by omega), ok_bind, wordAt_offset hf (by omega), ok_bind,
    wordAt_offset hf (by omega), ok_bind]
  rfl

theorem header_eq {buffer : Bytes} (hf : Framed buffer) (index : Nat) :
    (tableOf buffer).header index =
      if countOf buffer ≤ index then Halt.refuse .outOfRange
      else if InOrder buffer index then
        .ok (pieceExtent buffer (2 * index), pieceExtent buffer (2 * index + 1))
      else Halt.refuse .invalidArgument := by
  unfold Table.header
  by_cases hi : (tableOf buffer).count ≤ index
  · rw [if_pos hi, if_pos (by exact hi)]
  · have hi' : ¬countOf buffer ≤ index := hi
    rw [if_neg hi, if_neg hi', delimiters_eq hf (by omega), ok_bind, tableOf_count,
      tableLength_of_lt hf.1]
    simp only [ok_bind]
    have hsize := hf.2.2
    by_cases ho : InOrder buffer index
    · rw [if_pos ho]
      obtain ⟨h₁, h₂, h₃, h₄⟩ := ho
      have hkey := Extent.cut_of_le h₂ (Nat.le_trans h₃ (Nat.le_trans h₄ hsize))
      have hval := Extent.cut_of_le h₃ (Nat.le_trans h₄ hsize)
      rw [if_neg (by rw [tableOf_payloadStart]; omega), tableOf_buffer, hkey,
        Halt.ofTrap_ok, ok_bind, hval, Halt.ofTrap_ok, ok_bind]
      rfl
    · rw [if_neg ho, if_pos (by rw [tableOf_payloadStart]; unfold InOrder at ho; omega)]

/-- A header that can be read lies in order, and its parts are its two pieces. -/
theorem header_eq_ok_iff {buffer : Bytes} (hf : Framed buffer) {index : Nat} {e : Extent × Extent} :
    (tableOf buffer).header index = .ok e ↔ index < countOf buffer ∧ InOrder buffer index ∧
      e = (pieceExtent buffer (2 * index), pieceExtent buffer (2 * index + 1)) := by
  rw [header_eq hf]
  by_cases hi : countOf buffer ≤ index
  · simp [hi, Halt.refuse]
  · have hlt : index < countOf buffer := Nat.not_le.mp hi
    by_cases ho : InOrder buffer index
    · simp [hi, hlt, ho, eq_comm]
    · simp [hi, ho, Halt.refuse]

theorem payload_eq {buffer : Bytes} (hf : Framed buffer) :
    (tableOf buffer).payload = .ok ⟨payloadOf buffer, buffer.size⟩ := by
  unfold Table.payload
  rw [tableOf_buffer, tableOf_payloadStart, Extent.cut_of_le hf.2.2 (Nat.le_refl _), Halt.ofTrap_ok]

theorem payloadBytes_eq {buffer : Bytes} (hf : Framed buffer) :
    (tableOf buffer).payloadBytes = .ok (buffer.extract (payloadOf buffer) buffer.size) := by
  unfold Table.payloadBytes
  rw [payload_eq hf]
  rfl

end PacketHost.Flat
