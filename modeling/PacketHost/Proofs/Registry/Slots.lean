import PacketHost.Proofs.Association
import PacketHost.Registry.Ownership

/-!
# Slots after a step

Each indivisible step touches the slot of one token and leaves all others as they are. While each token has one slot
at most, insertion and removal move the number of slots by one, and taking leaves one callback less to be taken.
-/

namespace PacketHost.Registry

variable {κ : Type} {r : Registry κ} {t u : Token}

/-! ## Lookup -/

theorem slot?_erase (r : Registry κ) (t u : Token) :
    (r.erase t).slot? u = if u = t then none else r.slot? u := Association.lookup_filter_ne r.slots t u

theorem slot?_insert (r : Registry κ) (t u : Token) (callback : κ) :
    (r.insert t callback).slot? u = if u = t then some (some callback) else r.slot? u :=
  Association.lookup_set r.slots t u (some callback)

theorem slot?_disarm (r : Registry κ) (t u : Token) :
    (r.disarm t).slot? u = if u = t then (r.slot? t).map fun _ => none else r.slot? u := by
  unfold disarm slot?
  induction r.slots with
  | nil => simp
  | cons s slots ih =>
      obtain ⟨k, c⟩ := s
      rw [List.map_cons, List.lookup_cons, List.lookup_cons, List.lookup_cons, ih]
      by_cases hu : u = t <;> by_cases hk : k = t
      · subst hu hk
        simp
      · subst hu
        rw [if_neg hk, beq_eq_false_iff_ne.mpr (Ne.symm hk)]
      · subst hk
        rw [if_pos rfl, if_neg hu, beq_eq_false_iff_ne.mpr hu]
        simp [hu]
      · rw [if_neg hk, if_neg hu, if_neg hu]

@[simp] theorem slot?_draw (r : Registry κ) (u : Token) : r.draw.2.slot? u = r.slot? u := rfl

@[simp] theorem slot?_count (r : Registry κ) (u : Token) : r.count.slot? u = r.slot? u := rfl

theorem take_of_some {callback : κ} (h : r.slot? t = some (some callback)) :
    r.take t = (.taken callback, r.disarm t) := by
  unfold take
  rw [h]

theorem take_of_taken (h : r.slot? t = some none) : r.take t = (.consumed, r) := by
  unfold take
  rw [h]

/-! ## Tokens that have a slot -/

def tokens (r : Registry κ) : List Token := r.slots.map Prod.fst

theorem slot?_eq_none_iff : r.slot? t = none ↔ t ∉ r.tokens := by
  unfold slot? tokens
  rw [List.lookup_eq_none_iff]
  simp only [List.mem_map, not_exists, not_and]
  constructor
  · intro h s hs he
    have := h s hs
    simp [he] at this
  · intro h s hs
    exact bne_iff_ne.mpr fun he => h s hs he.symm

theorem tokens_erase (hr : r.tokens.Nodup) (t : Token) : (r.erase t).tokens = r.tokens.erase t := by
  rw [hr.erase_eq_filter]
  unfold tokens
  rw [List.filter_map]
  change (r.slots.filter fun s => s.1 ≠ t).map Prod.fst = _
  congr 1
  apply List.filter_congr
  intro s _
  by_cases hs : s.1 = t <;> simp [hs]

theorem tokens_insert (r : Registry κ) (t : Token) (callback : κ) :
    (r.insert t callback).tokens = (r.erase t).tokens ++ [t] := by
  unfold tokens insert
  rw [List.map_append]
  rfl

@[simp] theorem tokens_disarm (r : Registry κ) (t : Token) : (r.disarm t).tokens = r.tokens := by
  unfold tokens disarm
  rw [List.map_map]
  apply List.map_congr_left
  intro s _
  simp only [Function.comp_apply]
  by_cases hs : s.1 = t
  · rw [if_pos hs, hs]
  · rw [if_neg hs]

theorem nodup_erase (hr : r.tokens.Nodup) (t : Token) : (r.erase t).tokens.Nodup :=
  hr.sublist (List.filter_sublist.map Prod.fst)

theorem nodup_insert (hr : r.tokens.Nodup) (t : Token) (callback : κ) : (r.insert t callback).tokens.Nodup :=
  Association.nodup_set hr t (some callback)

@[simp] theorem tokens_draw (r : Registry κ) : r.draw.2.tokens = r.tokens := rfl

@[simp] theorem tokens_count (r : Registry κ) : r.count.tokens = r.tokens := rfl

theorem erase_of_none (h : r.slot? t = none) : r.erase t = r := by
  have hall : r.slots.filter (fun s => s.1 ≠ t) = r.slots := by
    rw [List.filter_eq_self]
    intro s hs
    have hmem : s.1 ∈ r.tokens := List.mem_map_of_mem hs
    have hne : s.1 ≠ t := fun he => slot?_eq_none_iff.mp h (he ▸ hmem)
    simpa using hne
  unfold erase
  rw [hall]

theorem erase_insert (r : Registry κ) (t : Token) (callback : κ) : (r.insert t callback).erase t = r.erase t := by
  have hlast : [(t, some callback)].filter (fun s => s.1 ≠ t) = [] := by simp
  unfold insert erase
  simp only
  rw [List.filter_append, List.filter_filter, hlast, List.append_nil]
  simp only [Bool.and_self]

theorem erase_disarm (r : Registry κ) (t : Token) : (r.disarm t).erase t = r.erase t := by
  unfold disarm erase
  simp only
  congr 1
  induction r.slots with
  | nil => rfl
  | cons s slots ih =>
      by_cases hs : s.1 = t
      · simpa [hs] using ih
      · simpa [hs] using ih

/-! ## The number of slots -/

theorem outstanding_eq_length (r : Registry κ) : r.outstanding = r.tokens.length := (List.length_map _).symm

theorem outstanding_insert_of_none (h : r.slot? t = none) (callback : κ) :
    (r.insert t callback).outstanding = r.outstanding + 1 := by
  rw [outstanding_eq_length, outstanding_eq_length, tokens_insert, erase_of_none h, List.length_append]
  rfl

theorem outstanding_erase (hr : r.tokens.Nodup) {slot : Option κ} (ht : r.slot? t = some slot) :
    (r.erase t).outstanding + 1 = r.outstanding := by
  have hmem : t ∈ r.tokens := by
    by_cases hmem : t ∈ r.tokens
    · exact hmem
    · rw [slot?_eq_none_iff.mpr hmem] at ht
      cases ht
  rw [outstanding_eq_length, outstanding_eq_length, tokens_erase hr, List.length_erase_of_mem hmem]
  exact Nat.sub_add_cancel (List.length_pos_of_mem hmem)

theorem erase_of_not_contains (h : r.contains t = false) : r.erase t = r :=
  erase_of_none (Option.not_isSome_iff_eq_none.mp (by rw [← contains, h]; exact Bool.false_ne_true))

theorem outstanding_erase_add (hr : r.tokens.Nodup) (t : Token) :
    (r.erase t).outstanding + (if r.contains t then 1 else 0) = r.outstanding := by
  unfold contains
  cases ht : r.slot? t with
  | none =>
      rw [erase_of_none ht]
      rfl
  | some slot => exact outstanding_erase hr ht

@[simp] theorem outstanding_disarm (r : Registry κ) (t : Token) : (r.disarm t).outstanding = r.outstanding :=
  List.length_map _

@[simp] theorem outstanding_draw (r : Registry κ) : r.draw.2.outstanding = r.outstanding := rfl

@[simp] theorem outstanding_count (r : Registry κ) : r.count.outstanding = r.outstanding := rfl

/-! ## The number of callbacks to be taken -/

theorem armed_insert_le (r : Registry κ) (t : Token) (callback : κ) : (r.insert t callback).armed ≤ r.armed + 1 := by
  change ((r.erase t).slots ++ [(t, some callback)]).countP _ ≤ _
  rw [List.countP_append]
  exact Nat.add_le_add_right (armed_erase_le r t) 1

theorem armed_disarm_le (r : Registry κ) (t : Token) : (r.disarm t).armed ≤ r.armed := by
  unfold armed disarm
  rw [List.countP_map]
  apply List.countP_mono_left
  intro s _
  simp only [Function.comp_apply]
  by_cases hs : s.1 = t
  · rw [if_pos hs]
    exact nofun
  · rw [if_neg hs]
    exact id

theorem armed_disarm {callback : κ} (h : r.slot? t = some (some callback)) : (r.disarm t).armed + 1 ≤ r.armed := by
  obtain ⟨slots, next, invocations⟩ := r
  induction slots with
  | nil => cases h
  | cons s slots ih =>
      obtain ⟨k, c⟩ := s
      change List.lookup t ((k, c) :: slots) = _ at h
      have hrest := armed_disarm_le (⟨slots, next, invocations⟩ : Registry κ) t
      simp only [armed, disarm, List.map_cons, List.countP_cons] at hrest ih ⊢
      rw [List.lookup_cons] at h
      by_cases hk : k = t
      · subst hk
        rw [beq_self_eq_true] at h
        obtain rfl : c = some callback := Option.some.inj h
        simpa using hrest
      · rw [beq_eq_false_iff_ne.mpr (Ne.symm hk)] at h
        have := ih h
        simp only [if_neg hk]
        omega

end PacketHost.Registry
