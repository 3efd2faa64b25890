import PacketHost.Proofs.Registry.Slots
import PacketHost.Registry.Action

/-!
# What happened to registrations

A past is a list of events, the latest first. It says which tokens are still registered (`live`), whose callbacks
have begun (`begunTokens`) and what each slot must hold (`slot`). In a `Distinct` past each registration has a token of
its own and a callback begins only out of its slot; from this follows that no callback begins twice and that no
registration is removed twice. In an `Orderly` past tokens are moreover numbered in the order of registration.
-/

namespace PacketHost

/-- What happens to a registration. -/
inductive Event where
  | registered (token : Token) (callback : Callback)
  /-- The callback is taken, to be called with a size. -/
  | begun (token : Token) (callback : Callback) (size : Nat)
  /-- The registration is removed, if there is one. -/
  | removed (token : Token)

namespace Event

/-! ## Reading a past -/

def registrations : List Event → List (Token × Callback)
  | [] => []
  | registered t callback :: past => (t, callback) :: registrations past
  | begun _ _ _ :: past => registrations past
  | removed _ :: past => registrations past

/-- The tokens that are registered and not yet removed. -/
def live : List Event → List Token
  | [] => []
  | registered t _ :: past => t :: live past
  | begun _ _ _ :: past => live past
  | removed t :: past => (live past).filter fun u => u ≠ t

/-- The tokens whose callbacks have begun. -/
def begunTokens : List Event → List Token
  | [] => []
  | registered _ _ :: past => begunTokens past
  | begun t _ _ :: past => t :: begunTokens past
  | removed _ :: past => begunTokens past

/-- The tokens that have been registered, also those removed since. -/
def registeredTokens (past : List Event) : List Token := (registrations past).map Prod.fst

/-- The tokens whose registration has been removed; a removal that finds no registration counts nothing. -/
def removedTokens : List Event → List Token
  | [] => []
  | registered _ _ :: past => removedTokens past
  | begun _ _ _ :: past => removedTokens past
  | removed t :: past => if t ∈ live past then t :: removedTokens past else removedTokens past

/-- What the slot of a token holds after a past. -/
def slot : List Event → Token → Option (Option Callback)
  | [], _ => none
  | registered t callback :: past, u => if u = t then some (some callback) else slot past u
  | begun t _ _ :: past, u => if u = t then (slot past t).map fun _ => none else slot past u
  | removed t :: past, u => if u = t then none else slot past u

theorem isSome_slot_iff (past : List Event) (t : Token) : (slot past t).isSome = true ↔ t ∈ live past := by
  induction past with
  | nil => simp [slot, live]
  | cons e past ih =>
      cases e with
      | registered u callback => by_cases h : t = u <;> simp [slot, live, h, ih]
      | begun u callback size =>
          by_cases h : t = u
          · subst h
            simp [slot, live, ih]
          · simp [slot, live, h, ih]
      | removed u => by_cases h : t = u <;> simp [slot, live, h, ih]

theorem live_sublist (past : List Event) : (live past).Sublist (registeredTokens past) := by
  induction past with
  | nil => exact .slnil
  | cons e past ih =>
      cases e with
      | registered t callback => exact ih.cons_cons t
      | begun t callback size => exact ih
      | removed t => exact List.filter_sublist.trans ih

/-- What is live after more events was registered in them, or was live before them and not removed in them. -/
theorem mem_live_append_iff (later past : List Event) (t : Token) :
    t ∈ live (later ++ past) ↔ t ∈ live later ∨ (t ∈ live past ∧ .removed t ∉ later) := by
  induction later with
  | nil => simp [live]
  | cons e later ih =>
      cases e with
      | registered u callback => simp [live, ih, or_assoc]
      | begun u callback size => simp [live, ih]
      | removed u =>
          by_cases hu : t = u
          · simp [live, hu]
          · simp [live, hu, ih]

theorem mem_live_of_registered {past : List Event} {t : Token} (h : t ∈ registeredTokens past)
    (hremoved : .removed t ∉ past) : t ∈ live past := by
  induction past with
  | nil => cases h
  | cons e past ih =>
      have hrest := List.not_mem_of_not_mem_cons hremoved
      cases e with
      | registered u callback =>
          rcases List.mem_cons.mp h with rfl | h
          · exact List.mem_cons_self
          · exact List.mem_cons_of_mem _ (ih h hrest)
      | begun u callback size => exact ih h hrest
      | removed u =>
          refine List.mem_filter.mpr ⟨ih h hrest, decide_eq_true ?_⟩
          rintro rfl
          exact hremoved List.mem_cons_self

theorem registrations_append (later past : List Event) :
    registrations (later ++ past) = registrations later ++ registrations past := by
  induction later with
  | nil => rfl
  | cons e later ih =>
      cases e with
      | registered t callback => exact congrArg ((t, callback) :: ·) ih
      | begun t callback size => exact ih
      | removed t => exact ih

theorem begunTokens_append (later past : List Event) :
    begunTokens (later ++ past) = begunTokens later ++ begunTokens past := by
  induction later with
  | nil => rfl
  | cons e later ih =>
      cases e with
      | registered t callback => exact ih
      | begun t callback size => exact congrArg (t :: ·) ih
      | removed t => exact ih

theorem mem_registeredTokens_of_mem {past : List Event} {r : Token × Callback} (h : r ∈ registrations past) :
    r.1 ∈ registeredTokens past := List.mem_map_of_mem h

theorem mem_registrations_of_slot {past : List Event} {t : Token} {callback : Callback}
    (h : slot past t = some (some callback)) : (t, callback) ∈ registrations past := by
  induction past with
  | nil => cases h
  | cons e past ih =>
      cases e with
      | registered u c =>
          by_cases hu : t = u
          · rw [slot, if_pos hu] at h
            cases h
            exact hu ▸ List.mem_cons_self
          · rw [slot, if_neg hu] at h
            exact List.mem_cons_of_mem _ (ih h)
      | begun u c size =>
          by_cases hu : t = u
          · rw [slot, if_pos hu] at h
            obtain ⟨_, _, hc⟩ := Option.map_eq_some_iff.mp h
            cases hc
          · rw [slot, if_neg hu] at h
            exact ih h
      | removed u =>
          by_cases hu : t = u
          · rw [slot, if_pos hu] at h
            cases h
          · rw [slot, if_neg hu] at h
            exact ih h

/-- A slot is empty only after its callback has begun. -/
theorem mem_begunTokens_of_slot {past : List Event} {t : Token} (h : slot past t = some none) :
    t ∈ begunTokens past := by
  induction past with
  | nil => cases h
  | cons e past ih =>
      cases e with
      | registered u c =>
          by_cases hu : t = u
          · rw [slot, if_pos hu] at h
            cases h
          · rw [slot, if_neg hu] at h
            exact ih h
      | begun u c size =>
          by_cases hu : t = u
          · exact hu ▸ List.mem_cons_self
          · rw [slot, if_neg hu] at h
            exact List.mem_cons_of_mem _ (ih h)
      | removed u =>
          by_cases hu : t = u
          · rw [slot, if_pos hu] at h
            cases h
          · rw [slot, if_neg hu] at h
            exact ih h

/-- A slot stays as it is while its token is left alone. -/
theorem slot_append_of_untouched {later past : List Event} {t : Token} (hnew : t ∉ registeredTokens later)
    (hremoved : .removed t ∉ later) (hbegun : t ∉ begunTokens later) : slot (later ++ past) t = slot past t := by
  induction later with
  | nil => rfl
  | cons e later ih =>
      have hrest := List.not_mem_of_not_mem_cons hremoved
      cases e with
      | registered u c =>
          have hu : t ≠ u := List.ne_of_not_mem_cons hnew
          exact (if_neg hu).trans (ih (List.not_mem_of_not_mem_cons hnew) hrest hbegun)
      | begun u c size =>
          have hu : t ≠ u := List.ne_of_not_mem_cons hbegun
          exact (if_neg hu).trans (ih hnew hrest (List.not_mem_of_not_mem_cons hbegun))
      | removed u =>
          have hu : t ≠ u := fun he => hremoved (he ▸ List.mem_cons_self)
          exact (if_neg hu).trans (ih hnew hrest hbegun)

/-- After its callback has begun or its slot was removed, a token has no callback to take unless it is given to another.
-/
theorem slot_append_of_spent {later past : List Event} {t : Token} (hnew : t ∉ registeredTokens later)
    (hspent : .removed t ∈ later ∨ t ∈ begunTokens later) (callback : Callback) :
    slot (later ++ past) t ≠ some (some callback) := by
  induction later with
  | nil => exact (hspent.elim List.not_mem_nil List.not_mem_nil).elim
  | cons e later ih =>
      cases e with
      | registered u c =>
          have hu : t ≠ u := List.ne_of_not_mem_cons hnew
          rw [List.cons_append, slot, if_neg hu]
          exact ih (List.not_mem_of_not_mem_cons hnew) (hspent.imp_left fun hmem => by simpa using hmem)
      | begun u c size =>
          rw [List.cons_append, slot]
          by_cases hu : t = u
          · rw [if_pos hu]
            simp
          · rw [if_neg hu]
            exact ih hnew (hspent.imp (fun hmem => by simpa using hmem) fun hmem => by
              simpa [begunTokens, hu] using hmem)
      | removed u =>
          rw [List.cons_append, slot]
          by_cases hu : t = u
          · rw [if_pos hu]
            simp
          · rw [if_neg hu]
            exact ih hnew (hspent.imp_left fun hmem => by simpa [hu] using hmem)

/-! ## Distinct pasts -/

/-- Each registration has a token of its own, and each callback that begins comes out of its slot. -/
inductive Distinct : List Event → Prop where
  | nil : Distinct []
  | registered {past : List Event} {t : Token} (h : Distinct past) (ht : t ∉ registeredTokens past)
    (callback : Callback) : Distinct (.registered t callback :: past)
  | begun {past : List Event} {t : Token} {callback : Callback} (h : Distinct past)
    (ht : slot past t = some (some callback)) (size : Nat) : Distinct (.begun t callback size :: past)
  | removed {past : List Event} (h : Distinct past) (t : Token) : Distinct (.removed t :: past)

namespace Distinct

variable {past : List Event} {t : Token}

theorem nodup_registered (h : Distinct past) : (registeredTokens past).Nodup := by
  induction h with
  | nil => exact .nil
  | registered _ ht _ ih => exact List.nodup_cons.mpr ⟨ht, ih⟩
  | begun _ _ _ ih => exact ih
  | removed _ _ ih => exact ih

theorem nodup_live (h : Distinct past) : (live past).Nodup := h.nodup_registered.sublist (live_sublist past)

theorem mem_registeredTokens_of_begun (h : Distinct past) (ht : t ∈ begunTokens past) : t ∈ registeredTokens past := by
  induction h with
  | nil => cases ht
  | registered _ _ _ ih => exact List.mem_cons_of_mem _ (ih ht)
  | begun h hslot _ ih =>
      rcases List.mem_cons.mp ht with rfl | ht
      · exact mem_registeredTokens_of_mem (mem_registrations_of_slot hslot)
      · exact ih ht
  | removed _ _ ih => exact ih ht

/-- A callback that is still in its slot has not begun. -/
theorem not_begun (h : Distinct past) {callback : Callback} (ht : slot past t = some (some callback)) :
    t ∉ begunTokens past := by
  induction h with
  | nil => cases ht
  | @registered past u h hnew c ih =>
      by_cases hu : t = u
      · intro hbegun
        exact hnew (hu ▸ h.mem_registeredTokens_of_begun hbegun)
      · rw [slot, if_neg hu] at ht
        exact ih ht
  | @begun past u c h hslot size ih =>
      by_cases hu : t = u
      · rw [slot, if_pos hu, hslot] at ht
        cases ht
      · rw [slot, if_neg hu] at ht
        exact fun hmem => (List.mem_cons.mp hmem).elim hu (ih ht)
  | @removed past h u ih =>
      by_cases hu : t = u
      · rw [slot, if_pos hu] at ht
        cases ht
      · rw [slot, if_neg hu] at ht
        exact ih ht

theorem nodup_begun (h : Distinct past) : (begunTokens past).Nodup := by
  induction h with
  | nil => exact .nil
  | registered _ _ _ ih => exact ih
  | begun h hslot _ ih => exact List.nodup_cons.mpr ⟨h.not_begun hslot, ih⟩
  | removed _ _ ih => exact ih

/-- Each registration is live or has been removed. -/
theorem perm_registered (h : Distinct past) : (live past ++ removedTokens past).Perm (registeredTokens past) := by
  induction h with
  | nil => exact .refl _
  | registered _ _ _ ih => exact ih.cons _
  | begun _ _ _ ih => exact ih
  | @removed past h u ih =>
      change ((live past).filter (fun v => v ≠ u) ++ removedTokens (.removed u :: past)).Perm (registeredTokens past)
      by_cases hu : u ∈ live past
      · have herase : (live past).filter (fun v => v ≠ u) = (live past).erase u := by
          rw [h.nodup_live.erase_eq_filter]
          refine List.filter_congr fun v _ => ?_
          by_cases hv : v = u
          · simp [hv]
          · simp [hv]
        rw [removedTokens, if_pos hu, herase]
        exact (List.perm_middle.trans ((List.perm_cons_erase hu).symm.append_right _)).trans ih
      · have hall : (live past).filter (fun v => v ≠ u) = live past := by
          refine List.filter_eq_self.mpr fun v hv => ?_
          exact decide_eq_true fun he => hu (he ▸ hv)
        rw [removedTokens, if_neg hu, hall]
        exact ih

/-- A registration is removed once at most. -/
theorem nodup_removed (h : Distinct past) : (removedTokens past).Nodup :=
  (List.nodup_append.mp (h.perm_registered.nodup_iff.mpr h.nodup_registered)).2.1

theorem mem_live_iff (h : Distinct past) : t ∈ live past ↔ t ∈ registeredTokens past ∧ t ∉ removedTokens past := by
  rw [← h.perm_registered.mem_iff, List.mem_append]
  have hdisjoint := (List.nodup_append.mp (h.perm_registered.nodup_iff.mpr h.nodup_registered)).2.2
  constructor
  · exact fun hlive => ⟨.inl hlive, fun hremoved => hdisjoint t hlive t hremoved rfl⟩
  · exact fun ⟨hor, hnot⟩ => hor.resolve_right hnot

/-- Live tokens are the ones with a slot, and the slot shows whether the callback has begun. -/
theorem slot_cases (h : Distinct past) (t : Token) :
    (t ∉ live past ∧ slot past t = none) ∨
    (t ∈ live past ∧ t ∈ begunTokens past ∧ slot past t = some none) ∨
    ∃ callback, t ∈ live past ∧ t ∉ begunTokens past ∧ (t, callback) ∈ registrations past ∧
      slot past t = some (some callback) := by
  have hlive := isSome_slot_iff past t
  cases hs : slot past t with
  | none =>
      rw [hs] at hlive
      exact .inl ⟨fun ht => Bool.false_ne_true (hlive.mpr ht), rfl⟩
  | some c =>
      rw [hs] at hlive
      cases c with
      | none => exact .inr (.inl ⟨hlive.mp rfl, mem_begunTokens_of_slot hs, rfl⟩)
      | some callback =>
          exact .inr (.inr ⟨callback, hlive.mp rfl, h.not_begun hs, mem_registrations_of_slot hs, rfl⟩)

/-- A token that was registered is not registered again. -/
theorem not_mem_registered {later : List Event} (h : Distinct (later ++ past)) (ht : t ∈ registeredTokens past) :
    t ∉ registeredTokens later := by
  intro hagain
  have hnodup := h.nodup_registered
  unfold registeredTokens at hnodup
  rw [registrations_append, List.map_append] at hnodup
  exact (List.nodup_append.mp hnodup).2.2 t hagain t ht rfl

/-- A live token stays live until it is removed: no later registration has the same token. -/
theorem live_append_iff {later : List Event} (h : Distinct (later ++ past)) (ht : t ∈ live past) :
    t ∈ live (later ++ past) ↔ .removed t ∉ later := by
  have hnew := h.not_mem_registered ((live_sublist past).subset ht)
  have hnot : t ∉ live later := fun hlive => hnew ((live_sublist later).subset hlive)
  rw [mem_live_append_iff]
  exact ⟨fun hor => (hor.resolve_left hnot).2, fun hremoved => .inr ⟨ht, hremoved⟩⟩

end Distinct

/-! ## Orderly pasts -/

/-- Tokens are numbered in the order of registration, and each callback that begins comes out of its slot. -/
inductive Orderly : List Event → Prop where
  | nil : Orderly []
  | registered {past : List Event} {t : Token} (h : Orderly past) (ht : t.id = (registrations past).length + 1)
    (callback : Callback) : Orderly (.registered t callback :: past)
  | begun {past : List Event} {t : Token} {callback : Callback} (h : Orderly past)
    (ht : slot past t = some (some callback)) (size : Nat) : Orderly (.begun t callback size :: past)
  | removed {past : List Event} (h : Orderly past) (t : Token) : Orderly (.removed t :: past)

namespace Orderly

variable {past : List Event} {t : Token}

theorem tail {e : Event} (h : Orderly (e :: past)) : Orderly past := by
  cases h with
  | registered h => exact h
  | begun h => exact h
  | removed h => exact h

theorem of_append {later : List Event} (h : Orderly (later ++ past)) : Orderly past := by
  induction later with
  | nil => exact h
  | cons e later ih => exact ih h.tail

theorem id_le (h : Orderly past) {callback : Callback} (ht : (t, callback) ∈ registrations past) :
    t.id ≤ (registrations past).length := by
  induction h with
  | nil => cases ht
  | registered _ hid c ih =>
      rcases List.mem_cons.mp ht with he | ht
      · cases he
        exact Nat.le_of_eq hid
      · exact Nat.le_succ_of_le (ih ht)
  | begun _ _ _ ih => exact ih ht
  | removed _ _ ih => exact ih ht

theorem id_le_of_registered (h : Orderly past) (ht : t ∈ registeredTokens past) :
    t.id ≤ (registrations past).length := by
  obtain ⟨r, hr, rfl⟩ := List.mem_map.mp ht
  exact h.id_le hr

theorem ordered (h : Orderly past) : (registrations past).Pairwise fun late early => early.1.id < late.1.id := by
  induction h with
  | nil => exact .nil
  | registered h hid _ ih =>
      refine .cons (fun early hearly => ?_) ih
      rw [hid]
      exact Nat.lt_succ_of_le (h.id_le hearly)
  | begun _ _ _ ih => exact ih
  | removed _ _ ih => exact ih

theorem distinct (h : Orderly past) : Distinct past := by
  induction h with
  | nil => exact .nil
  | registered h hid callback ih =>
      refine .registered ih (fun hmem => ?_) callback
      have := h.id_le_of_registered hmem
      omega
  | begun _ hslot size ih => exact .begun ih hslot size
  | removed _ t ih => exact .removed ih t

theorem not_begun (h : Orderly past) {callback : Callback} (ht : slot past t = some (some callback)) :
    t ∉ begunTokens past := h.distinct.not_begun ht

theorem nodup_begun (h : Orderly past) : (begunTokens past).Nodup := h.distinct.nodup_begun

theorem nodup_live (h : Orderly past) : (live past).Nodup := h.distinct.nodup_live

theorem live_append_iff {later : List Event} (h : Orderly (later ++ past)) (ht : t ∈ live past) :
    t ∈ live (later ++ past) ↔ .removed t ∉ later := h.distinct.live_append_iff ht

theorem slot_cases (h : Orderly past) (t : Token) :
    (t ∉ live past ∧ slot past t = none) ∨
    (t ∈ live past ∧ t ∈ begunTokens past ∧ slot past t = some none) ∨
    ∃ callback, t ∈ live past ∧ t ∉ begunTokens past ∧ (t, callback) ∈ registrations past ∧
      slot past t = some (some callback) := h.distinct.slot_cases t

theorem id_of_registered {later : List Event} {callback : Callback}
    (h : Orderly (later ++ .registered t callback :: past)) : t.id = (registrations past).length + 1 := by
  cases h.of_append with
  | registered _ hid => exact hid

theorem slot_of_begun {later : List Event} {callback : Callback} {size : Nat}
    (h : Orderly (later ++ .begun t callback size :: past)) : slot past t = some (some callback) := by
  cases h.of_append with
  | begun _ hslot => exact hslot

end Orderly

end Event

end PacketHost
