import PacketHost.Proofs.Registry.Slots

/-!
# What goes with a guard

The slots that are removed when guards are dropped are those of the tokens that ownership leads to from them
(`mem_cascade_iff`). All other slots stay as they are, and so do the counters.
-/

namespace PacketHost.Registry

open Relation

/-- The callback of a token has not begun and owns the guard of the other token. -/
def Owns (r : Registry Callback) (t u : Token) : Prop := u ∈ r.guards t

/-- With the slot of a token that of the other goes: it is the same one, or a callback owns its guard that is discarded
with the first. -/
def TakesAlong (r : Registry Callback) : Token → Token → Prop := ReflTransGen r.Owns

variable {r : Registry Callback} {t u v : Token}

/-! ## Guards of one callback -/

theorem guards_of_some {callback : Callback} (h : r.slot? t = some (some callback)) :
    r.guards t = callback.guards := by
  unfold guards
  rw [h]

theorem guards_of_taken (h : r.slot? t = some none) : r.guards t = [] := by
  unfold guards
  rw [h]

theorem guards_of_none (h : r.slot? t = none) : r.guards t = [] := by
  unfold guards
  rw [h]

/-- Only a callback that has not begun owns guards in its slot. -/
theorem guards_cases (r : Registry Callback) (t : Token) :
    r.guards t = [] ∨ ∃ callback, r.slot? t = some (some callback) ∧ r.guards t = callback.guards := by
  cases ht : r.slot? t with
  | none => exact .inl (guards_of_none ht)
  | some slot =>
      cases slot with
      | none => exact .inl (guards_of_taken ht)
      | some callback => exact .inr ⟨callback, rfl, guards_of_some ht⟩

theorem guards_erase (r : Registry Callback) (t u : Token) :
    (r.erase t).guards u = if u = t then [] else r.guards u := by
  unfold guards
  rw [slot?_erase]
  by_cases hu : u = t
  · rw [if_pos hu, if_pos hu]
  · rw [if_neg hu, if_neg hu]

theorem Owns.of_erase (h : (r.erase t).Owns u v) : r.Owns u v := by
  unfold Owns at h ⊢
  rw [guards_erase] at h
  by_cases hu : u = t
  · rw [if_pos hu] at h
    cases h
  · rw [if_neg hu] at h
    exact h

theorem Owns.erase (h : r.Owns u v) (hu : u ≠ t) : (r.erase t).Owns u v := by
  unfold Owns
  rw [guards_erase, if_neg hu]
  exact h

/-! ## Everything that goes -/

theorem TakesAlong.of_erase (h : (r.erase t).TakesAlong u v) : r.TakesAlong u v :=
  h.lift id fun _ _ => Owns.of_erase

/-- What goes goes also after the slot of `t` is removed, or it is `t`, or a guard of `t` leads to it. The induction is
on the last owner. -/
theorem TakesAlong.erase (h : r.TakesAlong u v) (t : Token) :
    (r.erase t).TakesAlong u v ∨ v = t ∨ ∃ w ∈ r.guards t, (r.erase t).TakesAlong w v := by
  induction h with
  | refl => exact .inl .refl
  | @tail v w _ howns ih =>
      by_cases hv : v = t
      · subst hv
        exact .inr (.inr ⟨w, howns, .refl⟩)
      · have hstep : (r.erase t).Owns v w := howns.erase hv
        rcases ih with hleft | hsame | ⟨x, hx, hrest⟩
        · exact .inl (hleft.tail hstep)
        · exact absurd hsame hv
        · exact .inr (.inr ⟨x, hx, hrest.tail hstep⟩)

theorem eq_of_takesAlong (hguards : r.guards t = []) (h : r.TakesAlong t u) : u = t := by
  rcases ReflTransGen.cases_head h with rfl | ⟨v, howns, -⟩
  · rfl
  · unfold Owns at howns
    rw [hguards] at howns
    cases howns

/-- The induction follows the drops; each removes one slot and puts the guards of a discarded callback before the
others. -/
theorem mem_cascade_iff (r : Registry Callback) (held : List Token) :
    u ∈ r.cascade held ↔ ∃ t ∈ held, r.TakesAlong t u := by
  induction r, held using cascade.induct with
  | case1 r => simp [cascade]
  | case2 r t others ih =>
      rw [cascade, List.mem_cons, ih]
      constructor
      · rintro (rfl | ⟨v, hv, hgoes⟩)
        · exact ⟨u, List.mem_cons_self, .refl⟩
        · rcases List.mem_append.mp hv with howned | hother
          · exact ⟨t, List.mem_cons_self, .head howned hgoes.of_erase⟩
          · exact ⟨v, List.mem_cons_of_mem _ hother, hgoes.of_erase⟩
      · rintro ⟨v, hv, hgoes⟩
        rcases hgoes.erase t with hleft | hsame | ⟨w, hw, hrest⟩
        · rcases List.mem_cons.mp hv with rfl | hother
          · exact .inl (eq_of_takesAlong (by rw [guards_erase, if_pos rfl]) hleft)
          · exact .inr ⟨v, List.mem_append_right _ hother, hleft⟩
        · exact .inl hsame
        · exact .inr ⟨w, List.mem_append_left _ hw, hrest⟩

theorem mem_cascade_singleton_iff : u ∈ r.cascade [t] ↔ r.TakesAlong t u := by
  rw [mem_cascade_iff]
  simp

/-! ## What is left -/

@[simp] theorem cascade_nil (r : Registry Callback) : r.cascade [] = [] := by rw [cascade]

@[simp] theorem shed_nil (r : Registry Callback) : r.shed [] = r := by
  unfold shed
  rw [cascade_nil]
  rfl

theorem shed_cons (r : Registry Callback) (t : Token) (others : List Token) :
    r.shed (t :: others) = (r.erase t).shed (r.guards t ++ others) := by
  unfold shed
  rw [cascade]
  rfl

theorem cascade_append (r : Registry Callback) (held held' : List Token) :
    r.cascade (held ++ held') = r.cascade held ++ (r.shed held).cascade held' := by
  induction r, held using cascade.induct with
  | case1 r => rw [List.nil_append, shed_nil, cascade_nil, List.nil_append]
  | case2 r t held ih =>
      rw [List.append_assoc] at ih
      rw [List.cons_append, cascade, ih, shed_cons, cascade, List.cons_append]

theorem shed_append (r : Registry Callback) (held held' : List Token) :
    r.shed (held ++ held') = (r.shed held).shed held' := by
  unfold shed
  rw [cascade_append, List.foldl_append]
  rfl

/-- Where no callback is discarded that owns guards, only the one slot goes. -/
theorem cascade_singleton (h : r.guards t = []) : r.cascade [t] = [t] := by
  rw [cascade, h, List.append_nil, cascade_nil]

theorem shed_singleton (h : r.guards t = []) : r.shed [t] = r.erase t := by
  unfold shed
  rw [cascade_singleton h]
  rfl

theorem slot?_foldl_erase (r : Registry Callback) (gone : List Token) (u : Token) :
    (gone.foldl erase r).slot? u = if u ∈ gone then none else r.slot? u := by
  induction gone generalizing r with
  | nil => rfl
  | cons t gone ih =>
      rw [List.foldl_cons, ih, slot?_erase]
      by_cases hu : u = t <;> by_cases hmem : u ∈ gone <;> simp [hu, hmem]

theorem slot?_shed (r : Registry Callback) (held : List Token) (u : Token) :
    (r.shed held).slot? u = if u ∈ r.cascade held then none else r.slot? u := slot?_foldl_erase r _ u

theorem slot?_shed_of_takesAlong (h : r.TakesAlong t u) : (r.shed [t]).slot? u = none := by
  rw [slot?_shed, if_pos (mem_cascade_singleton_iff.mpr h)]

theorem slot?_shed_of_not_takesAlong (h : ¬r.TakesAlong t u) : (r.shed [t]).slot? u = r.slot? u := by
  rw [slot?_shed, if_neg (mt mem_cascade_singleton_iff.mp h)]

theorem contains_shed : (r.shed [t]).contains u = true ↔ r.contains u = true ∧ ¬r.TakesAlong t u := by
  unfold contains
  by_cases h : r.TakesAlong t u
  · rw [slot?_shed_of_takesAlong h]
    simp [h]
  · rw [slot?_shed_of_not_takesAlong h]
    simp [h]

theorem foldl_erase (r : Registry Callback) (gone : List Token) :
    gone.foldl erase r = { r with slots := r.slots.filter fun s => s.1 ∉ gone } := by
  induction gone generalizing r with
  | nil => simp
  | cons t gone ih =>
      rw [List.foldl_cons, ih]
      simp only [erase, List.filter_filter, List.mem_cons, not_or, ne_eq, Bool.decide_and, Bool.and_comm]

@[simp] theorem next_shed (r : Registry Callback) (held : List Token) : (r.shed held).next = r.next := by
  rw [shed, foldl_erase]

@[simp] theorem invocations_shed (r : Registry Callback) (held : List Token) :
    (r.shed held).invocations = r.invocations := by
  rw [shed, foldl_erase]

theorem tokens_shed (r : Registry Callback) (held : List Token) :
    (r.shed held).tokens = r.tokens.filter (· ∉ r.cascade held) := by
  rw [shed, foldl_erase, tokens, tokens, List.filter_map]
  rfl

/-- The number of slots falls by the registrations that go. -/
theorem outstanding_shed (hr : r.tokens.Nodup) (t : Token) :
    (r.shed [t]).outstanding + {u | r.TakesAlong t u ∧ r.contains u = true}.ncard = r.outstanding := by
  have hgone : {u | r.TakesAlong t u ∧ r.contains u = true} = (r.tokens.filter (· ∈ r.cascade [t])).toFinset := by
    ext u
    simp only [Set.mem_ofPred_eq, List.coe_toFinset, List.mem_filter, decide_eq_true_eq, mem_cascade_singleton_iff,
      contains, Option.isSome_iff_ne_none, ne_eq, slot?_eq_none_iff, not_not, and_comm]
  have hsplit : (r.tokens.filter (· ∈ r.cascade [t]) ++ r.tokens.filter (· ∉ r.cascade [t])).Perm r.tokens := by
    simpa using List.filter_append_perm (fun u => decide (u ∈ r.cascade [t])) r.tokens
  rw [hgone, Set.ncard_coe_finset, List.toFinset_card_of_nodup (hr.filter _), outstanding_eq_length,
    outstanding_eq_length, tokens_shed, Nat.add_comm, ← List.length_append]
  exact hsplit.length_eq

end PacketHost.Registry
