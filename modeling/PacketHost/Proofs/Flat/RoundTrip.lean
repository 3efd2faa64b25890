import PacketHost.Proofs.Flat.Decode
import PacketHost.Proofs.Flat.Write

/-!
# Cut and extended packets

A packet does not store its length, so a buffer that ends earlier or later is still a packet as long as the
payload starts in it: only the payload changes. A buffer that ends before the payload starts is refused,
wherever the cut falls.
-/

namespace PacketHost.Flat

theorem layout_append (headers : List Header) (gap payload rest : Bytes) :
    layout headers gap payload ++ rest = layout headers gap (payload ++ rest) := by
  unfold layout
  simp only [Array.append_assoc]

theorem extract_layout {headers : List Header} {gap payload : Bytes} {n : Nat}
    (h : payloadStart headers gap ≤ n) :
    (layout headers gap payload).extract 0 n =
      layout headers gap (payload.extract 0 (n - payloadStart headers gap)) := by
  have hsize : (layout headers gap #[]).size = payloadStart headers gap := size_layout headers gap #[]
  have hsplit := layout_append headers gap #[] payload
  rw [Array.empty_append] at hsplit
  rw [← hsplit, Array.extract_append, Array.extract_eq_self_of_le (by omega), hsize, layout_append,
    Array.empty_append, Nat.zero_sub]

theorem storedWord_extract {buffer : Bytes} {n index : Nat} (hn : n ≤ buffer.size)
    (h : Word.width * index + Word.width ≤ n) :
    storedWord (buffer.extract 0 n) index = storedWord buffer index := by
  have hsplit : buffer.extract 0 n ++ buffer.extract n buffer.size = buffer := by
    rw [Array.extract_append_extract, Nat.zero_min, Nat.max_eq_right hn,
      Array.extract_eq_self_of_le (Nat.le_refl _)]
  rw [← storedWord_append_left (buffer.extract n buffer.size) (by rw [Array.size_extract]; omega), hsplit]

/-- A cut before the payload is noticed. The count word, the table or the payload position is incomplete, or the
payload position lies past the cut. -/
theorem not_framed_extract {buffer : Bytes} {n : Nat} (hn : n ≤ buffer.size) (h : n < payloadOf buffer) :
    ¬Framed (buffer.extract 0 n) := by
  rintro ⟨-, htable, hpayload⟩
  have hsize : (buffer.extract 0 n).size = n := by
    rw [Array.size_extract]
    omega
  have hcount : countOf (buffer.extract 0 n) = countOf buffer := by
    apply storedWord_extract hn
    simp only [tableSize, Word.width] at htable ⊢
    omega
  have hstart : payloadOf (buffer.extract 0 n) = payloadOf buffer := by
    unfold payloadOf offset
    rw [hcount] at htable ⊢
    apply storedWord_extract hn
    simp only [tableSize, Word.width] at htable ⊢
    omega
  omega

/-- What is read back from a packet that was cut or extended. -/
theorem decode_cut_or_extended {headers : List Header} {payload : Bytes} {size : Nat}
    (hsize : Flat.size headers payload = .ok size) (buffer : Bytes) (hbuffer : buffer.size = size) :
    ∃ packet, write buffer headers payload = .ok packet ∧ packet.size = size ∧
      (∀ n ≤ size,
        (n < size - payload.size →
          Table.ofBytes (packet.extract 0 n) = Halt.refuse .invalidArgument) ∧
        (size - payload.size ≤ n →
          Decodes (packet.extract 0 n) headers (payload.extract 0 (n - (size - payload.size))))) ∧
      ∀ rest, Decodes (packet ++ rest) headers (payload ++ rest) := by
  obtain ⟨rfl, hlt⟩ := size_eq_ok_iff.mp hsize
  have hlen := size_layout headers #[] payload
  rw [← encode_eq_layout] at hlen
  have hstart : payloadStart headers #[] < Word.limit := by omega
  have hsub : (encode headers payload).size - payload.size = payloadStart headers #[] := by omega
  rw [hsub]
  refine ⟨encode headers payload, write_eq_of_size hlt hbuffer, rfl, ?_, ?_⟩
  · intro n hn
    rw [encode_eq_layout] at hn ⊢
    constructor
    · intro hcut
      apply ofBytes_of_not_framed
      exact not_framed_extract hn (by rw [payloadOf_layout hstart]; exact hcut)
    · intro hcut
      rw [extract_layout hcut]
      exact decodes_layout hstart _
  · intro rest
    rw [encode_eq_layout, layout_append]
    exact decodes_layout hstart _

/-- A packet with a repeated key and an empty header, read back after every cut and with more bytes behind it. -/
theorem decode_cut_or_extended_repeated_key :
    let headers : List Header := [⟨#[7], #[1]⟩, ⟨#[], #[]⟩, ⟨#[7], #[2, 3]⟩]
    ∃ packet, write (Array.replicate 72 255) headers #[8, 9, 10] = .ok packet ∧ packet.size = 72 ∧
      (∀ n ≤ 72,
        (n < 69 → Table.ofBytes (packet.extract 0 n) = Halt.refuse .invalidArgument) ∧
        (69 ≤ n → Decodes (packet.extract 0 n) headers ((#[8, 9, 10] : Bytes).extract 0 (n - 69)))) ∧
      ∀ rest, Decodes (packet ++ rest) headers (#[8, 9, 10] ++ rest) :=
  decode_cut_or_extended rfl (Array.replicate 72 255) rfl

end PacketHost.Flat
