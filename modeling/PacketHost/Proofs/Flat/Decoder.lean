import PacketHost.Proofs.Flat.Acceptance
import PacketHost.Proofs.Flat.Decode

/-!
# The decoder over natural numbers

`decoder_exact` says what the decoder answers on every buffer, in terms of the words that the bytes of the buffer make
up. It takes nothing from how the checks are ordered or from the words being bounded: a count for which the offset
table is no word is refused because such a table does not fit into a buffer.
-/

namespace PacketHost

namespace Word

/-- The digits of a number as a sum; places behind the last digit add nothing. -/
theorem ofDigits_eq_sum {ds : List UInt8} {n : Nat} (h : ds.length ≤ n) :
    ofDigits ds = ∑ i ∈ Finset.range n, (ds[i]?.getD 0).toNat * 256 ^ i := by
  induction ds generalizing n with
  | nil => simp [ofDigits]
  | cons d ds ih =>
      obtain ⟨n, rfl⟩ : ∃ k, n = k + 1 := Nat.exists_eq_add_of_le' (Nat.le_trans (Nat.le_add_left 1 _) h)
      have hlen : ds.length ≤ n := Nat.le_of_succ_le_succ h
      rw [ofDigits, ih hlen, Finset.sum_range_succ', Finset.mul_sum, Nat.add_comm]
      simp only [List.getElem?_cons_succ, List.getElem?_cons_zero, Option.getD_some, pow_zero, mul_one]
      congr 1
      refine Finset.sum_congr rfl fun i _ => ?_
      rw [pow_succ]
      ring

end Word

namespace Flat

/-- The number that the eight bytes from a position on make up, the first byte counting least. A byte that lies behind
the end of the buffer counts nothing. -/
def littleEndian (buffer : Bytes) (pos : Nat) : Nat :=
  ∑ i ∈ Finset.range 8, (buffer[pos + i]?.getD 0).toNat * 256 ^ i

theorem storedWord_eq_littleEndian (buffer : Bytes) (index : Nat) :
    storedWord buffer index = littleEndian buffer (8 * index) := by
  have hlen : (buffer.extract (8 * index) (8 * index + 8)).toList.length ≤ 8 := by
    simp only [Array.length_toList, Array.size_extract]
    omega
  have hword : storedWord buffer index =
      Word.ofDigits (buffer.extract (8 * index) (8 * index + 8)).toList := rfl
  rw [hword, Word.ofDigits_eq_sum hlen]
  refine Finset.sum_congr rfl fun i hi => ?_
  have hlt : i < 8 := Finset.mem_range.mp hi
  congr 3
  rw [Array.getElem?_toList, Array.getElem?_extract]
  by_cases hin : 8 * index + i < buffer.size
  · rw [if_pos (by omega)]
  · rw [if_neg (by omega), Array.getElem?_eq_none (by omega)]

theorem offset_eq_littleEndian (buffer : Bytes) (piece : Nat) :
    offset buffer piece = littleEndian buffer (8 + 8 * piece) := by
  rw [offset, storedWord_eq_littleEndian]
  congr 1
  omega

theorem countOf_eq_littleEndian (buffer : Bytes) : countOf buffer = littleEndian buffer 0 :=
  storedWord_eq_littleEndian buffer 0

theorem payloadOf_eq_littleEndian (buffer : Bytes) :
    payloadOf buffer = littleEndian buffer (16 + 16 * littleEndian buffer 0 - 8) := by
  rw [payloadOf, offset_eq_littleEndian, countOf_eq_littleEndian]
  congr 1
  omega

/-- In a buffer of which each position is a word, a table whose size is no word does not fit. -/
theorem framed_iff {buffer : Bytes} (hbuffer : buffer.size < Word.limit) :
    Framed buffer ↔ 16 ≤ buffer.size ∧ 16 + 16 * countOf buffer ≤ buffer.size ∧
      16 + 16 * countOf buffer ≤ payloadOf buffer ∧ payloadOf buffer ≤ buffer.size := by
  unfold Framed
  rw [tableSize_eq]
  omega

theorem ofBytes_eq_refused_iff {buffer : Bytes} :
    Table.ofBytes buffer = Halt.refuse .invalidArgument ↔ ¬Framed buffer := by
  rw [ofBytes_eq]
  by_cases h : Framed buffer
  · simp [h, Halt.refuse]
  · simp [h]

theorem ofBytes_not_trapped (buffer : Bytes) (trap : Trap) : Table.ofBytes buffer ≠ .error (.trapped trap) := by
  rw [ofBytes_eq]
  by_cases h : Framed buffer
  · rw [if_pos h]
    exact nofun
  · rw [if_neg h]
    exact nofun

section

variable {buffer : Bytes} (hf : Framed buffer) (index : Nat)

include hf

theorem header_eq_out_of_range_iff :
    (tableOf buffer).header index = Halt.refuse .outOfRange ↔ countOf buffer ≤ index := by
  rw [header_eq hf]
  by_cases hi : countOf buffer ≤ index
  · simp [hi]
  · by_cases ho : InOrder buffer index
    · simp [hi, ho, Halt.refuse]
    · simp [hi, ho, Halt.refuse]

theorem header_eq_refused_iff :
    (tableOf buffer).header index = Halt.refuse .invalidArgument ↔ index < countOf buffer ∧ ¬InOrder buffer index := by
  rw [header_eq hf]
  by_cases hi : countOf buffer ≤ index
  · simp [hi, Nat.not_lt.mpr hi, Halt.refuse]
  · by_cases ho : InOrder buffer index
    · simp [hi, ho, Halt.refuse]
    · simp [hi, ho, Nat.not_le.mp hi]

theorem header_not_trapped (trap : Trap) : (tableOf buffer).header index ≠ .error (.trapped trap) := by
  rw [header_eq hf]
  by_cases hi : countOf buffer ≤ index
  · rw [if_pos hi]
    exact nofun
  · rw [if_neg hi]
    by_cases ho : InOrder buffer index
    · rw [if_pos ho]
      exact nofun
    · rw [if_neg ho]
      exact nofun

theorem headerBytes_iff {h : Header} :
    (tableOf buffer).headerBytes index = .ok h ↔ index < countOf buffer ∧ InOrder buffer index ∧
      h = ⟨buffer.extract (offset buffer (2 * index)) (offset buffer (2 * index + 1)),
        buffer.extract (offset buffer (2 * index + 1)) (offset buffer (2 * index + 2))⟩ := by
  rw [headerBytes_eq_ok_iff]
  constructor
  · rintro ⟨e, he, hkey, hval⟩
    obtain ⟨hi, ho, rfl⟩ := (header_eq_ok_iff hf).mp he
    refine ⟨hi, ho, ?_⟩
    obtain ⟨key, val⟩ := h
    simp only at hkey hval
    rw [← hkey, ← hval]
    rfl
  · rintro ⟨hi, ho, rfl⟩
    exact ⟨_, (header_eq_ok_iff hf).mpr ⟨hi, ho, rfl⟩, rfl, rfl⟩

end

/-- What the decoder answers on every buffer: the count, the table's size and the payload's position are over natural
numbers, and each refusal has exactly one cause. -/
theorem decoder_exact {buffer : Bytes} (hbuffer : buffer.size < 2 ^ 63) :
    let n := littleEndian buffer 0
    let T := 16 + 16 * n
    let w := littleEndian buffer (T - 8)
    let o := fun j => littleEndian buffer (8 + 8 * j)
    let fits := 16 ≤ buffer.size ∧ T ≤ buffer.size ∧ T ≤ w ∧ w ≤ buffer.size
    let ordered := fun i => T ≤ o (2 * i) ∧ o (2 * i) ≤ o (2 * i + 1) ∧ o (2 * i + 1) ≤ o (2 * i + 2) ∧
      o (2 * i + 2) ≤ w
    (∀ t, Table.ofBytes buffer = .ok t ↔ fits ∧ t = ⟨buffer, n, w⟩) ∧
    (Table.ofBytes buffer = Halt.refuse .invalidArgument ↔ ¬fits) ∧
    (∀ trap, Table.ofBytes buffer ≠ .error (.trapped trap)) ∧
    ∀ t, Table.ofBytes buffer = .ok t →
      t.count = n ∧ o (2 * n) = w ∧ t.payload = .ok ⟨w, buffer.size⟩ ∧
      t.payloadBytes = .ok (buffer.extract w buffer.size) ∧
      ∀ i, (t.header i = Halt.refuse .outOfRange ↔ n ≤ i) ∧
        (∀ key val, t.header i = .ok (key, val) ↔ i < n ∧ ordered i ∧
          (key, val) = (⟨o (2 * i), o (2 * i + 1)⟩, ⟨o (2 * i + 1), o (2 * i + 2)⟩)) ∧
        (∀ h, t.headerBytes i = .ok h ↔ i < n ∧ ordered i ∧
          h = ⟨buffer.extract (o (2 * i)) (o (2 * i + 1)), buffer.extract (o (2 * i + 1)) (o (2 * i + 2))⟩) ∧
        (t.header i = Halt.refuse .invalidArgument ↔ i < n ∧ ¬ordered i) ∧
        ∀ trap, t.header i ≠ .error (.trapped trap) := by
  intro n T w o fits ordered
  have hcount : countOf buffer = n := countOf_eq_littleEndian buffer
  have hpayload : payloadOf buffer = w := payloadOf_eq_littleEndian buffer
  have hoffset : offset buffer = o := funext (offset_eq_littleEndian buffer)
  have hfits : Framed buffer ↔ fits := by
    rw [framed_iff (Nat.lt_trans hbuffer (by decide)), hcount, hpayload]
  have hordered : ∀ i, InOrder buffer i ↔ ordered i := by
    intro i
    rw [InOrder, hcount, hpayload, hoffset, tableSize_eq]
  have htable : tableOf buffer = ⟨buffer, n, w⟩ := by rw [tableOf, hcount, hpayload]
  refine ⟨fun t => ?_, ?_, ofBytes_not_trapped buffer, fun t ht => ?_⟩
  · rw [ofBytes_eq_ok_iff, hfits, htable]
  · rw [ofBytes_eq_refused_iff, hfits]
  · obtain ⟨hf, rfl⟩ := ofBytes_eq_ok_iff.mp ht
    refine ⟨hcount, ?_, ?_, ?_, fun i => ⟨?_, fun key val => ?_, fun h => ?_, ?_, header_not_trapped hf i⟩⟩
    · rw [← hoffset, ← hpayload, payloadOf, hcount]
    · rw [payload_eq hf, hpayload]
    · rw [payloadBytes_eq hf, hpayload]
    · rw [header_eq_out_of_range_iff hf, hcount]
    · rw [header_eq_ok_iff hf, hcount, hordered, ← hoffset]
      rfl
    · rw [headerBytes_iff hf, hcount, hordered, hoffset]
    · rw [header_eq_refused_iff hf, hcount, hordered]

/-- A packet whose first header starts behind its own value: that header is refused and the second one is read. -/
theorem decoder_exact_corrupt_first :
    let buffer : Bytes := (encodeWords [2, 50, 49, 49, 50, 51]).toArray ++ #[7, 8, 9, 10]
    buffer.size < 2 ^ 63 ∧ ∃ t, Table.ofBytes buffer = .ok t ∧ t.count = 2 ∧
      t.payloadBytes = .ok (buffer.extract 51 52) ∧ t.header 0 = Halt.refuse .invalidArgument ∧
      t.header 1 = .ok (⟨49, 50⟩, ⟨50, 51⟩) ∧ t.header 2 = Halt.refuse .outOfRange := by
  intro buffer
  have hsize : buffer.size < 2 ^ 63 := by decide
  obtain ⟨hok, -, -, hread⟩ := decoder_exact hsize
  have ht := (hok ⟨buffer, 2, 51⟩).mpr ⟨by decide, by decide⟩
  obtain ⟨hcount, -, -, hpayload, hheader⟩ := hread _ ht
  obtain ⟨-, -, -, hfirst, -⟩ := hheader 0
  obtain ⟨-, hsecond, -⟩ := hheader 1
  obtain ⟨hthird, -⟩ := hheader 2
  have hstart : littleEndian buffer (16 + 16 * littleEndian buffer 0 - 8) = 51 := by decide
  rw [hstart] at hpayload
  exact ⟨hsize, _, ht, rfl, hpayload, hfirst.mpr (by decide), (hsecond _ _).mpr (by decide), hthird.mpr (by decide)⟩

end Flat

end PacketHost
