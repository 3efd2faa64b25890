import PacketHost.Proofs.Flat.Layout

/-!
# Reading headers and payload back

`Decodes` says that a buffer is accepted and then answers every question as a list of headers and a payload do:
for each index, for each key and for the payload. A packet with a gap decodes to what it was made
from (`decodes_layout`).
-/

namespace PacketHost.Flat

/-- What was looked for, or a refusal if there is no such thing. -/
def found {α : Type} (reason : Status) : Option α → Except (Halt Status) α
  | some a => .ok a
  | none => Halt.refuse reason

def firstValue? (headers : List Header) (key : Bytes) : Option Bytes :=
  (headers.find? fun h => h.key == key).map Header.val

/-- A table answers as a list of headers and a payload do. -/
structure Table.Holds (t : Table) (headers : List Header) (payload : Bytes) : Prop where
  count : t.count = headers.length
  header : ∀ index, t.headerBytes index = found .outOfRange headers[index]?
  find : ∀ key, t.find key = found .notFound (firstValue? headers key)
  payload : t.payloadBytes = .ok payload

/-- A buffer is accepted as a packet of the given headers and payload. -/
def Decodes (buffer : Bytes) (headers : List Header) (payload : Bytes) : Prop :=
  ∃ t, Table.ofBytes buffer = .ok t ∧ t.Holds headers payload

/-! ## Headers -/

theorem headerBytes_eq_ok_iff {t : Table} {index : Nat} {h : Header} :
    t.headerBytes index = .ok h ↔
      ∃ e, t.header index = .ok e ∧ e.1.read t.buffer = h.key ∧ e.2.read t.buffer = h.val := by
  unfold Table.headerBytes
  cases he : t.header index with
  | error reason =>
      constructor
      · intro hb
        cases hb
      · rintro ⟨e, hb, -⟩
        cases hb
  | ok e =>
      obtain ⟨key, val⟩ := e
      simp only [ok_bind, pure_eq_ok, Except.ok.injEq]
      constructor
      · rintro rfl
        exact ⟨_, rfl, rfl, rfl⟩
      · rintro ⟨e, he, hkey, hval⟩
        cases he
        rw [hkey, hval]

/-- The search reads the headers one after the other and stops at the first accepted key. The induction is on
the number of headers that are left. -/
theorem searchFrom_eq {t : Table} {headers : List Header}
    (hheader : ∀ index, t.headerBytes index = found .outOfRange headers[index]?) (accept : Bytes → Bool)
    {index remaining : Nat} (hsum : index + remaining = headers.length) :
    (t.searchFrom accept index remaining >>= fun e => .ok (e.read t.buffer)) =
      found .notFound (((headers.drop index).find? fun h => accept h.key).map Header.val) := by
  induction remaining generalizing index with
  | zero =>
      rw [List.drop_of_length_le (by omega)]
      rfl
  | succ remaining ih =>
      have hi : index < headers.length := by omega
      have hread := hheader index
      rw [List.getElem?_eq_getElem hi] at hread
      obtain ⟨e, he, hkey, hval⟩ := headerBytes_eq_ok_iff.mp hread
      rw [Table.searchFrom, he, ok_bind, List.drop_eq_getElem_cons hi, List.find?_cons]
      obtain ⟨key, val⟩ := e
      simp only at hkey hval ⊢
      rw [hkey]
      cases accept headers[index].key with
      | true =>
          simp only [if_pos, pure_eq_ok, ok_bind, hval]
          rfl
      | false => exact ih (by omega)

theorem find_eq {t : Table} {headers : List Header} (hcount : t.count = headers.length)
    (hheader : ∀ index, t.headerBytes index = found .outOfRange headers[index]?) (key : Bytes) :
    t.find key = found .notFound (firstValue? headers key) := by
  unfold Table.find Table.search
  rw [hcount]
  exact searchFrom_eq hheader (· == key) (by omega)

/-! ## Packets with a gap -/

theorem decodes_layout {headers : List Header} {gap : Bytes}
    (hlt : payloadStart headers gap < Word.limit) (payload : Bytes) :
    Decodes (layout headers gap payload) headers payload := by
  have hframed := framed_layout hlt payload
  have hcount : (tableOf (layout headers gap payload)).count = headers.length := by
    rw [tableOf_count, countOf_layout hlt]
  have hheader : ∀ index, (tableOf (layout headers gap payload)).headerBytes index =
      found .outOfRange headers[index]? := by
    intro index
    by_cases hi : index < headers.length
    · have hkey : (pieces headers)[2 * index]? = some headers[index].key := by
        rw [getElem?_pieces_key, List.getElem?_eq_getElem hi, Option.map_some]
      have hval : (pieces headers)[2 * index + 1]? = some headers[index].val := by
        rw [getElem?_pieces_val, List.getElem?_eq_getElem hi, Option.map_some]
      rw [List.getElem?_eq_getElem hi]
      apply headerBytes_eq_ok_iff.mpr
      rw [header_eq hframed, countOf_layout hlt, if_neg (by omega), if_pos (inOrder_layout hlt payload hi),
        tableOf_buffer]
      exact ⟨_, rfl, pieceExtent_read hlt payload hkey, pieceExtent_read hlt payload hval⟩
    · have hlen : countOf (layout headers gap payload) ≤ index := by
        rw [countOf_layout hlt]
        omega
      unfold Table.headerBytes
      rw [header_eq hframed, if_pos hlen, List.getElem?_eq_none (by omega)]
      rfl
  refine ⟨_, ofBytes_of_framed hframed, hcount, hheader, find_eq hcount hheader, ?_⟩
  have hsplit : layout headers gap payload = layout headers gap #[] ++ payload := by
    unfold layout
    simp only [Array.append_assoc, Array.append_empty]
  have hempty : (layout headers gap #[]).size = payloadStart headers gap := size_layout headers gap #[]
  rw [payloadBytes_eq hframed, payloadOf_layout hlt, size_layout, hsplit, ← hempty, Except.ok.injEq]
  have hlast := extract_append_size (layout headers gap #[]) payload 0 payload.size
  rw [Nat.add_zero, Array.extract_eq_self_of_le (Nat.le_refl _)] at hlast
  exact hlast

end PacketHost.Flat
