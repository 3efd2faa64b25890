import Mathlib
import PacketHost.Packet.Admission

/-!
# Which headers and payload are admitted

`Limits.check` admits headers and payload exactly if they keep to all limits (`Limits.Admits`), and names the first
limit that they break. Content whose size is no word is turned down too; it breaks each limit that is a word.
-/

namespace PacketHost.Limits

/-- The number of bytes in all keys and values and in the payload. -/
def contentSize (headers : List Header) (payload : Bytes) : Nat :=
  (headers.map Header.contentLength).sum + payload.size

/-- Headers and payload keep to all limits. -/
structure Admits (l : Limits) (headers : List Header) (payload : Bytes) : Prop where
  count : headers.length ≤ l.maxHeaders
  keys : l.rejectEmptyKeys = true → ∀ h ∈ headers, h.key ≠ #[]
  content : contentSize headers payload ≤ l.maxPacketSize

/-! ## The size of the content -/

theorem foldlM_add?_of_lt {headers : List Header} {size : Nat}
    (h : (headers.map Header.contentLength).sum + size < Word.limit) :
    headers.foldlM (fun size h => Word.add? size h.contentLength) size =
      some ((headers.map Header.contentLength).sum + size) := by
  induction headers generalizing size with
  | nil => exact congrArg some (Nat.zero_add size).symm
  | cons header headers ih =>
      rw [List.map_cons, List.sum_cons] at h ⊢
      have hfirst : Word.add? size header.contentLength = some (size + header.contentLength) := if_pos (by omega)
      rw [List.foldlM_cons, hfirst, Option.bind_eq_bind, Option.bind_some, ih (by omega)]
      congr 1
      omega

theorem eq_of_foldlM_add? {headers : List Header} {size n : Nat}
    (h : headers.foldlM (fun size h => Word.add? size h.contentLength) size = some n) :
    n = (headers.map Header.contentLength).sum + size := by
  induction headers generalizing size with
  | nil =>
      cases h
      exact (Nat.zero_add n).symm
  | cons header headers ih =>
      rw [List.foldlM_cons, Option.bind_eq_bind, Option.bind_eq_some_iff] at h
      obtain ⟨s, hs, h⟩ := h
      obtain ⟨rfl, -⟩ := Word.add?_eq_some_iff.mp hs
      rw [ih h, List.map_cons, List.sum_cons]
      omega

theorem contentSize?_of_lt {headers : List Header} {payload : Bytes} (h : contentSize headers payload < Word.limit) :
    contentSize? headers payload = some (contentSize headers payload) := foldlM_add?_of_lt h

theorem eq_of_contentSize? {headers : List Header} {payload : Bytes} {n : Nat}
    (h : contentSize? headers payload = some n) : n = contentSize headers payload := eq_of_foldlM_add? h

/-! ## Empty keys -/

theorem firstEmptyKey?_eq_none {headers : List Header} (h : ∀ header ∈ headers, header.key ≠ #[]) :
    firstEmptyKey? headers = none := by
  unfold firstEmptyKey?
  simpa using h

theorem firstEmptyKey?_eq_some {headers : List Header} {i : Nat} (hi : i < headers.length)
    (hempty : headers[i].key = #[]) (hfirst : ∀ j (hj : j < i), headers[j].key ≠ #[]) :
    firstEmptyKey? headers = some i := by
  refine List.findIdx?_eq_some_iff_getElem.mpr ⟨hi, by simpa using hempty, fun j hj => ?_⟩
  simpa using hfirst j hj

/-! ## The check -/

section

variable {l : Limits} {headers : List Header} {payload : Bytes}

theorem check_of_headers (h : l.maxHeaders < headers.length) : l.check headers payload =
    .error (.invalidArgument s!"{headers.length} headers exceeds limit of {l.maxHeaders}") := if_pos h

theorem check_of_empty_key (h : headers.length ≤ l.maxHeaders) (hreject : l.rejectEmptyKeys = true) {i : Nat}
    (hi : i < headers.length) (hempty : headers[i].key = #[]) (hfirst : ∀ j (hj : j < i), headers[j].key ≠ #[]) :
    l.check headers payload = .error (.invalidArgument s!"header {i} has an empty key") := by
  unfold check
  rw [if_neg (Nat.not_lt.mpr h), if_pos hreject, firstEmptyKey?_eq_some hi hempty hfirst]

/-- Only the size of the content is left to check. -/
theorem check_of_keys (h : headers.length ≤ l.maxHeaders)
    (hkeys : l.rejectEmptyKeys = true → ∀ h ∈ headers, h.key ≠ #[]) : l.check headers payload =
      match contentSize? headers payload with
      | some size =>
        if size ≤ l.maxPacketSize then .ok ()
        else .error (.invalidArgument s!"{size} content bytes exceeds packet limit of {l.maxPacketSize}")
      | none => .error (.invalidArgument "content size overflows") := by
  have hnone : (if l.rejectEmptyKeys then firstEmptyKey? headers else none) = none := by
    by_cases hreject : l.rejectEmptyKeys = true
    · rw [if_pos hreject, firstEmptyKey?_eq_none (hkeys hreject)]
    · rw [if_neg hreject]
  unfold check
  rw [if_neg (Nat.not_lt.mpr h)]
  cases contentSize? headers payload with
  | none => simp only [hnone]
  | some size => simp only [hnone]

theorem check_of_content (h : headers.length ≤ l.maxHeaders)
    (hkeys : l.rejectEmptyKeys = true → ∀ h ∈ headers, h.key ≠ #[])
    (hlt : contentSize headers payload < Word.limit) (hcontent : l.maxPacketSize < contentSize headers payload) :
    l.check headers payload = .error (.invalidArgument
      s!"{contentSize headers payload} content bytes exceeds packet limit of {l.maxPacketSize}") := by
  rw [check_of_keys h hkeys, contentSize?_of_lt hlt]
  exact if_neg (Nat.not_le.mpr hcontent)

theorem check_of_admits (hlt : contentSize headers payload < Word.limit) (h : l.Admits headers payload) :
    l.check headers payload = .ok () := by
  rw [check_of_keys h.count h.keys, contentSize?_of_lt hlt]
  exact if_pos h.content

/-- What is not admitted is turned down as an invalid argument. -/
theorem check_of_not_admits (h : ¬l.Admits headers payload) :
    ∃ text, l.check headers payload = .error (.invalidArgument text) := by
  by_cases hheaders : l.maxHeaders < headers.length
  · exact ⟨_, check_of_headers hheaders⟩
  · by_cases hkeys : l.rejectEmptyKeys = true → ∀ h ∈ headers, h.key ≠ #[]
    · have hcontent : ¬contentSize headers payload ≤ l.maxPacketSize :=
        fun hcontent => h ⟨Nat.not_lt.mp hheaders, hkeys, hcontent⟩
      rw [check_of_keys (Nat.not_lt.mp hheaders) hkeys]
      cases hsize : contentSize? headers payload with
      | none => exact ⟨_, rfl⟩
      | some n => exact ⟨_, if_neg (eq_of_contentSize? hsize ▸ hcontent)⟩
    · push Not at hkeys
      obtain ⟨hreject, hmem⟩ := hkeys
      have hsome : (firstEmptyKey? headers).isSome = true := by
        unfold firstEmptyKey?
        simpa using hmem
      obtain ⟨i, hi⟩ := Option.isSome_iff_exists.mp hsome
      unfold check
      rw [if_neg hheaders, if_pos hreject, hi]
      exact ⟨_, rfl⟩

end

end PacketHost.Limits
