import PacketHost.Proofs.Flat.Build
import PacketHost.Proofs.Flat.Reading

/-!
# Reading what was built

Whenever the flat engine builds a packet, the handle owns the packed form and nothing else, and each way to read
from it gives back headers and payload as they were handed over.
-/

namespace PacketHost

theorem Flat.pack_eq_ok {l : Limits} {host : Host} {headers : List Header} {payload : Bytes} {p : Packet}
    (h : Flat.pack l host headers payload = .ok p) :
    ∃ base, p = Flat.packet base headers payload ∧ 0 < base ∧
      base + (Flat.encode headers payload).size < Word.limit := by
  unfold Flat.pack at h
  cases hc : l.check headers payload with
  | error e =>
      rw [hc] at h
      cases h
  | ok =>
      cases hs : Flat.size headers payload with
      | error s =>
          rw [hc, hs] at h
          cases h
      | ok n =>
          cases hg : l.grant host n with
          | refused requested =>
              simp only [hc, hs, hg] at h
              cases h
          | granted buffer =>
              simp only [hc, hs, hg] at h
              cases h
              obtain ⟨hbase, hfit, -⟩ := Flat.grant_eq_granted hg
              obtain ⟨rfl, -⟩ := Flat.size_eq_ok_iff.mp hs
              exact ⟨buffer.base, rfl, hbase, hfit⟩

namespace Builder

/-- A packet built with the flat engine is the packed form of what was handed over, and reads as it. -/
theorem build_round_trip (l : Limits) (host : Host) (r : Registry Callback) (headers : List Header)
    (payload : Bytes) (h : Handle Id)
    (hbuilt : (Id.run ((⟨Flat.engine, l⟩ : Builder Id).build host r headers payload)).built =
      .finished (.ok h)) :
    ∃ size packed, Flat.size headers payload = .ok size ∧
      (∀ destination : Bytes, destination.size = size →
        Flat.write destination headers payload = .ok packed) ∧
      h.bytes = .ok packed ∧ h.length = .ok size ∧ h.isReleased = false ∧
      ∀ elsewhere : Memory, (⟨h, elsewhere⟩ : Reading Id).Shows headers payload := by
  rw [Flat.built_eq] at hbuilt
  cases hp : Flat.pack l host headers payload with
  | error e =>
      rw [hp] at hbuilt
      cases hbuilt
  | ok p =>
      rw [hp] at hbuilt
      cases hbuilt
      obtain ⟨base, rfl, hbase, hfit⟩ := Flat.pack_eq_ok hp
      have hlt : (Flat.encode headers payload).size < Word.limit := by omega
      have hstart : Flat.payloadStart headers #[] < Word.limit := by
        rw [Flat.encode_eq_layout, Flat.size_layout] at hlt
        omega
      have hdecodes : Flat.Decodes (Flat.encode headers payload) headers payload := by
        rw [Flat.encode_eq_layout]
        exact Flat.decodes_layout hstart payload
      exact ⟨_, _, Flat.size_eq_ok_iff.mpr ⟨rfl, hlt⟩, fun _ hd => Flat.write_eq_of_size hlt hd, rfl, rfl, rfl,
        Flat.shows_of_decodes (s := ⟨base, Flat.encode headers payload⟩) hbase hfit hdecodes⟩

/-- A header with an empty key and two with the same key, built in a page of memory. -/
theorem build_round_trip_repeated_key :
    let headers : List Header := [⟨#[], #[5]⟩, ⟨#[7], #[]⟩, ⟨#[7], #[1, 2]⟩]
    ∃ h : Handle Id,
      (Id.run ((⟨Flat.engine, {}⟩ : Builder Id).build .page {} headers #[9])).built = .finished (.ok h) ∧
        h.length = .ok 70 ∧ ∀ elsewhere : Memory, (⟨h, elsewhere⟩ : Reading Id).Shows headers #[9] := by
  intro headers
  have hpack : Flat.pack {} .page headers #[9] = .ok (Flat.packet 4096 headers #[9]) := rfl
  have hbuilt := Flat.built_eq {} .page {} headers #[9]
  rw [hpack] at hbuilt
  obtain ⟨size, packed, hsize, -, -, hlength, -, hshows⟩ :=
    build_round_trip {} .page {} headers #[9] _ hbuilt
  obtain rfl : 70 = size := Except.ok.inj hsize
  exact ⟨_, hbuilt, hlength, hshows⟩

end Builder

end PacketHost
