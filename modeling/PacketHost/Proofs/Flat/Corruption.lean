import PacketHost.Proofs.Flat.Search

/-!
# Corrupted packets

Where everything lies in a packet is said by the words of its offset table alone. So a packet whose table is intact is
accepted as before, with headers and payload at their places, whatever happened to the bytes behind the table; a byte
that changed shows in the piece in which it lies and nowhere else (`corruption_local`).
-/

namespace PacketHost

/-- Two buffers hold the same bytes from `start` up to, and without, `stop`. -/
def Bytes.Agree (buffer buffer' : Bytes) (start stop : Nat) : Prop :=
  ∀ i, start ≤ i → i < stop → buffer'[i]? = buffer[i]?

instance (buffer buffer' : Bytes) (start stop : Nat) : Decidable (Bytes.Agree buffer buffer' start stop) :=
  decidable_of_iff (∀ i < stop, start ≤ i → buffer'[i]? = buffer[i]?)
    ⟨fun h i hi hlt => h i hlt hi, fun h i hlt hi => h i hi hlt⟩

/-- What lies in a part of two buffers has the same length in both and differs exactly where the buffers differ. -/
structure Extent.Tracks (e : Extent) (buffer buffer' piece piece' : Bytes) : Prop where
  size : piece'.size = piece.size
  byte : ∀ i < piece.size, piece'[i]? = piece[i]? ↔ buffer'[e.start + i]? = buffer[e.start + i]?

section

variable {buffer buffer' : Bytes} {start stop : Nat}

theorem Bytes.Agree.mono (h : Bytes.Agree buffer buffer' start stop) {start' stop' : Nat} (hstart : start ≤ start')
    (hstop : stop' ≤ stop) : Bytes.Agree buffer buffer' start' stop' :=
  fun i hi hlt => h i (Nat.le_trans hstart hi) (Nat.lt_of_lt_of_le hlt hstop)

theorem Bytes.Agree.extract_eq (h : Bytes.Agree buffer buffer' start stop) (hsize : buffer'.size = buffer.size) :
    buffer'.extract start stop = buffer.extract start stop := by
  apply Array.ext_getElem?
  intro i
  rw [Array.getElem?_extract, Array.getElem?_extract, hsize]
  by_cases hi : i < min stop buffer.size - start
  · rw [if_pos hi, if_pos hi]
    exact h (start + i) (Nat.le_add_right start i) (by omega)
  · rw [if_neg hi, if_neg hi]

theorem Extent.tracks_read (e : Extent) (hsize : buffer'.size = buffer.size) :
    e.Tracks buffer buffer' (e.read buffer) (e.read buffer') where
  size := by
    unfold Extent.read
    rw [Array.size_extract, Array.size_extract, hsize]
  byte i hi := by
    unfold Extent.read at hi ⊢
    rw [Array.size_extract] at hi
    rw [Array.getElem?_extract, Array.getElem?_extract, hsize, if_pos hi, if_pos hi]

end

namespace Flat

/-! ## Two searches -/

/-- All that a search depends on is what the headers are. -/
theorem Table.find_eq_of_headers {t t' : Table} (hcount : t'.count = t.count)
    (hheaders : ∀ i, t'.headerBytes i = t.headerBytes i) (key : Bytes) : t'.find key = t.find key := by
  rcases t.endsAt_or_none key with ⟨i, hends⟩ | hnone
  · have hends' : t'.EndsAt key i := hends.of_agree (hcount ▸ hends.lt) fun j _ => hheaders j
    rw [find_of_endsAt hends', find_of_endsAt hends, hheaders]
  · rw [find_of_none hnone, find_of_none]
    rw [hcount]
    simpa only [hheaders] using hnone

/-! ## An intact table -/

section

variable {buffer buffer' : Bytes} (hf : Framed buffer) (hsize : buffer'.size = buffer.size)
  (htable : Bytes.Agree buffer buffer' 0 (tableSize (countOf buffer)))

include hsize

theorem storedWord_eq_of_agree {index stop : Nat} (h : Bytes.Agree buffer buffer' 0 stop)
    (hindex : Word.width * index + Word.width ≤ stop) : storedWord buffer' index = storedWord buffer index := by
  unfold storedWord
  rw [(h.mono (Nat.zero_le _) hindex).extract_eq hsize]

include htable

theorem countOf_eq_of_agree : countOf buffer' = countOf buffer :=
  storedWord_eq_of_agree hsize htable (by simp only [tableSize, Word.width]; omega)

/-- The word behind the last header is the last one of the table, so each word that delimits a header is intact. -/
theorem offset_eq_of_agree {piece : Nat} (hpiece : piece ≤ 2 * countOf buffer) :
    offset buffer' piece = offset buffer piece :=
  storedWord_eq_of_agree hsize htable (by simp only [tableSize, Word.width]; omega)

theorem payloadOf_eq_of_agree : payloadOf buffer' = payloadOf buffer := by
  unfold payloadOf
  rw [countOf_eq_of_agree hsize htable, offset_eq_of_agree hsize htable (Nat.le_refl _)]

theorem inOrder_iff_of_agree {index : Nat} (hindex : index < countOf buffer) :
    InOrder buffer' index ↔ InOrder buffer index := by
  unfold InOrder
  rw [countOf_eq_of_agree hsize htable, payloadOf_eq_of_agree hsize htable,
    offset_eq_of_agree hsize htable (by omega), offset_eq_of_agree hsize htable (by omega),
    offset_eq_of_agree hsize htable (by omega)]

theorem pieceExtent_eq_of_agree {piece : Nat} (hpiece : piece < 2 * countOf buffer) :
    pieceExtent buffer' piece = pieceExtent buffer piece := by
  unfold pieceExtent
  rw [offset_eq_of_agree hsize htable (Nat.le_of_lt hpiece), offset_eq_of_agree hsize htable hpiece]

include hf

theorem framed_of_agree : Framed buffer' := by
  unfold Framed
  rw [countOf_eq_of_agree hsize htable, payloadOf_eq_of_agree hsize htable, hsize]
  exact hf

theorem header_eq_of_agree (index : Nat) : (tableOf buffer').header index = (tableOf buffer).header index := by
  rw [header_eq (framed_of_agree hf hsize htable), header_eq hf, countOf_eq_of_agree hsize htable]
  by_cases hi : countOf buffer ≤ index
  · rw [if_pos hi, if_pos hi]
  · rw [if_neg hi, if_neg hi, pieceExtent_eq_of_agree hsize htable (by omega),
      pieceExtent_eq_of_agree hsize htable (by omega)]
    exact if_congr (inOrder_iff_of_agree hsize htable (Nat.not_le.mp hi)) rfl rfl

theorem payload_eq_of_agree : (tableOf buffer').payload = (tableOf buffer).payload := by
  rw [payload_eq (framed_of_agree hf hsize htable), payload_eq hf, payloadOf_eq_of_agree hsize htable, hsize]

end

theorem headerBytes_of_header {t : Table} {index : Nat} {e : Extent × Extent} (h : t.header index = .ok e) :
    t.headerBytes index = .ok ⟨e.1.read t.buffer, e.2.read t.buffer⟩ :=
  headerBytes_eq_ok_iff.mpr ⟨e, h, rfl, rfl⟩

theorem payloadBytes_of_payload {t : Table} {e : Extent} (h : t.payload = .ok e) :
    t.payloadBytes = .ok (e.read t.buffer) := by
  unfold Table.payloadBytes
  rw [h]
  rfl

/-- A header that can be read ends where the payload starts or before. -/
theorem header_stop_le {buffer : Bytes} (hf : Framed buffer) {index : Nat} {key val : Extent}
    (h : (tableOf buffer).header index = .ok (key, val)) :
    key.stop ≤ payloadOf buffer ∧ val.stop ≤ payloadOf buffer := by
  obtain ⟨-, ho, he⟩ := (header_eq_ok_iff hf).mp h
  cases he
  exact ⟨Nat.le_trans ho.2.2.1 ho.2.2.2, ho.2.2.2⟩

theorem headerBytes_eq_of_agree {buffer buffer' : Bytes} (hf : Framed buffer)
    (hheader : ∀ i, (tableOf buffer').header i = (tableOf buffer).header i) (hsize : buffer'.size = buffer.size)
    (h : Bytes.Agree buffer buffer' 0 (payloadOf buffer)) (index : Nat) :
    (tableOf buffer').headerBytes index = (tableOf buffer).headerBytes index := by
  cases hread : (tableOf buffer).header index with
  | error halt =>
      unfold Table.headerBytes
      rw [hheader, hread]
      rfl
  | ok e =>
      obtain ⟨key, val⟩ := e
      obtain ⟨hkey, hval⟩ := header_stop_le hf hread
      rw [headerBytes_of_header hread, headerBytes_of_header ((hheader index).trans hread)]
      unfold Extent.read
      rw [tableOf_buffer, tableOf_buffer, (h.mono (Nat.zero_le _) hkey).extract_eq hsize,
        (h.mono (Nat.zero_le _) hval).extract_eq hsize]

/-- What is left of a packet of which only bytes behind its offset table changed. -/
theorem corruption_local {buffer buffer' : Bytes} {t : Table} (ht : Table.ofBytes buffer = .ok t)
    (hsize : buffer'.size = buffer.size) (htable : Bytes.Agree buffer buffer' 0 (16 + 16 * t.count)) :
    ∃ t', Table.ofBytes buffer' = .ok t' ∧ t'.count = t.count ∧ t'.payloadStart = t.payloadStart ∧
      (∀ i, t'.header i = t.header i) ∧ t'.payload = t.payload ∧
      (∀ i key val, t.header i = .ok (key, val) → ∃ h h', t.headerBytes i = .ok h ∧ t'.headerBytes i = .ok h' ∧
        key.Tracks buffer buffer' h.key h'.key ∧ val.Tracks buffer buffer' h.val h'.val) ∧
      (∃ p p', t.payloadBytes = .ok p ∧ t'.payloadBytes = .ok p' ∧
        Extent.Tracks ⟨t.payloadStart, buffer.size⟩ buffer buffer' p p') ∧
      (Bytes.Agree buffer buffer' 0 t.payloadStart →
        (∀ i, t'.headerBytes i = t.headerBytes i) ∧ ∀ key, t'.find key = t.find key) ∧
      (Bytes.Agree buffer buffer' t.payloadStart buffer.size → t'.payloadBytes = t.payloadBytes) := by
  obtain ⟨hf, rfl⟩ := ofBytes_eq_ok_iff.mp ht
  rw [tableOf_count, ← tableSize_eq] at htable
  have hcount : (tableOf buffer').count = (tableOf buffer).count := countOf_eq_of_agree hsize htable
  have hheader := header_eq_of_agree hf hsize htable
  have hpayload := payload_eq hf
  have hpayload' := (payload_eq_of_agree hf hsize htable).trans hpayload
  refine ⟨tableOf buffer', ofBytes_of_framed (framed_of_agree hf hsize htable), hcount,
    payloadOf_eq_of_agree hsize htable, hheader, hpayload'.trans hpayload.symm, fun i key val hread => ?_, ?_,
    fun hbelow => ?_, fun habove => ?_⟩
  · exact ⟨_, _, headerBytes_of_header hread, headerBytes_of_header ((hheader i).trans hread),
      key.tracks_read hsize, val.tracks_read hsize⟩
  · exact ⟨_, _, payloadBytes_of_payload hpayload, payloadBytes_of_payload hpayload', Extent.tracks_read _ hsize⟩
  · have hheaders := headerBytes_eq_of_agree hf hheader hsize hbelow
    exact ⟨hheaders, Table.find_eq_of_headers hcount hheaders⟩
  · rw [payloadBytes_of_payload hpayload, payloadBytes_of_payload hpayload']
    exact congrArg Except.ok (habove.extract_eq hsize)

/-- A packet of which the second header cannot be read. Where a byte of the first value changes, the second header stays
unreadable and the payload stays as it was; where a byte of the payload changes, each search ends as before. -/
theorem corruption_local_changed_byte :
    let words := (encodeWords [3, 64, 65, 66, 60, 66, 67, 68]).toArray
    let buffer : Bytes := words ++ #[7, 8, 9, 10, 20, 21]
    ∃ t, Table.ofBytes buffer = .ok t ∧ t.payloadBytes = .ok #[20, 21] ∧
      t.header 1 = Halt.refuse .invalidArgument ∧ t.find #[9] = Halt.refuse .invalidArgument ∧
      (∃ t', Table.ofBytes (words ++ #[7, 80, 9, 10, 20, 21]) = .ok t' ∧ t'.headerBytes 0 = .ok ⟨#[7], #[80]⟩ ∧
        t'.header 1 = Halt.refuse .invalidArgument ∧ t'.payloadBytes = .ok #[20, 21]) ∧
      ∃ t', Table.ofBytes (words ++ #[7, 8, 9, 10, 20, 210]) = .ok t' ∧ t'.payloadBytes = .ok #[20, 210] ∧
        t'.find #[7] = t.find #[7] ∧ t'.find #[9] = Halt.refuse .invalidArgument := by
  intro words buffer
  have ht : Table.ofBytes buffer = .ok ⟨buffer, 3, 68⟩ := by decide
  have hpayload : (⟨buffer, 3, 68⟩ : Table).payloadBytes = .ok #[20, 21] := by decide
  have hhidden : (⟨buffer, 3, 68⟩ : Table).header 1 = Halt.refuse .invalidArgument := by decide
  have hfind : (⟨buffer, 3, 68⟩ : Table).find #[9] = Halt.refuse .invalidArgument := by decide
  obtain ⟨t₁, ht₁, -, -, hheader₁, -, -, -, -, hsame₁⟩ :=
    @corruption_local buffer (words ++ #[7, 80, 9, 10, 20, 21]) _ ht (by decide) (by decide)
  obtain ⟨t₂, ht₂, -, -, -, -, -, -, hsame₂, -⟩ :=
    @corruption_local buffer (words ++ #[7, 8, 9, 10, 20, 210]) _ ht (by decide) (by decide)
  have hfind₂ := (hsame₂ (by decide)).2
  refine ⟨_, ht, hpayload, hhidden, hfind, ⟨t₁, ht₁, ?_, (hheader₁ 1).trans hhidden, (hsame₁ (by decide)).trans hpayload⟩,
    t₂, ht₂, ?_, hfind₂ #[7], (hfind₂ #[9]).trans hfind⟩
  · obtain ⟨-, rfl⟩ := ofBytes_eq_ok_iff.mp ht₁
    decide
  · obtain ⟨-, rfl⟩ := ofBytes_eq_ok_iff.mp ht₂
    decide

end Flat

end PacketHost
