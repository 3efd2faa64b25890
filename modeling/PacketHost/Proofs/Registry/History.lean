import PacketHost.Proofs.Registry.Slots

/-!
# What indivisible steps lead to

The counters of a registry are words. As long as fewer tokens are drawn than there are words, none is drawn twice,
and as each token is inserted once and each callback taken once, the count of invocations does not wrap around
either. `Sound` is what each step keeps up of this by itself, and `Steps` adds what was begun and not yet ended.
-/

namespace PacketHost.Registry

variable {κ : Type} {r : Registry κ} {t : Token}

/-- The number of tokens drawn, unless the counter has come around. -/
def drawn (r : Registry κ) : Nat := Word.wrap (r.next + Word.largest)

/-- Each token has one slot at most, and it was drawn before. -/
structure Sound (r : Registry κ) : Prop where
  next : r.next < Word.limit
  nodup : r.tokens.Nodup
  drawn : ∀ t ∈ r.tokens, t.id ≤ r.drawn

theorem sound_empty : Sound ({} : Registry κ) :=
  ⟨(by decide : 1 < Word.limit), List.nodup_nil, nofun⟩

theorem drawn_empty : ({} : Registry κ).drawn = 0 := (by decide : Word.wrap (1 + Word.largest) = 0)

@[simp] theorem drawn_insert (r : Registry κ) (t : Token) (callback : κ) : (r.insert t callback).drawn = r.drawn := rfl

@[simp] theorem drawn_erase (r : Registry κ) (t : Token) : (r.erase t).drawn = r.drawn := rfl

@[simp] theorem drawn_disarm (r : Registry κ) (t : Token) : (r.disarm t).drawn = r.drawn := rfl

@[simp] theorem drawn_count (r : Registry κ) : r.count.drawn = r.drawn := rfl

theorem invocations_count (h : r.invocations + 1 < Word.limit) : r.count.invocations = r.invocations + 1 :=
  Nat.mod_eq_of_lt h

namespace Sound

theorem next_eq (h : Sound r) (hroom : r.drawn + 1 < Word.limit) : r.next = r.drawn + 1 := by
  have hnext := h.next
  unfold Registry.drawn Word.wrap Word.largest Word.limit at *
  omega

theorem drawn_draw (h : Sound r) (hroom : r.drawn + 1 < Word.limit) : r.draw.2.drawn = r.drawn + 1 := by
  have hnext := h.next_eq hroom
  unfold Registry.draw Registry.drawn Word.wrap Word.largest Word.limit at *
  simp only
  omega

theorem draw (h : Sound r) (hroom : r.drawn + 1 < Word.limit) : Sound r.draw.2 := by
  refine ⟨Nat.mod_lt _ (by decide), h.nodup, fun t ht => ?_⟩
  rw [h.drawn_draw hroom]
  exact Nat.le_succ_of_le (h.drawn t ht)

theorem count (h : Sound r) : Sound r.count := ⟨h.next, h.nodup, h.drawn⟩

theorem erase (h : Sound r) (t : Token) : Sound (r.erase t) := by
  have hsub : (r.erase t).tokens.Sublist r.tokens := List.filter_sublist.map Prod.fst
  exact ⟨h.next, nodup_erase h.nodup t, fun u hu => h.drawn u (hsub.subset hu)⟩

theorem insert (h : Sound r) (ht : t.id ≤ r.drawn) (callback : κ) : Sound (r.insert t callback) := by
  refine ⟨h.next, nodup_insert h.nodup t callback, fun u hu => ?_⟩
  rw [tokens_insert] at hu
  rcases List.mem_append.mp hu with hu | hu
  · exact (h.erase t).drawn u hu
  · obtain rfl := List.mem_singleton.mp hu
    exact ht

theorem disarm (h : Sound r) (t : Token) : Sound (r.disarm t) := by
  refine ⟨h.next, ?_, ?_⟩
  · rw [tokens_disarm]
    exact h.nodup
  · intro u hu
    rw [tokens_disarm] at hu
    exact h.drawn u hu

theorem slot?_of_lt (h : Sound r) (ht : r.drawn < t.id) : r.slot? t = none := by
  apply slot?_eq_none_iff.mpr
  intro hmem
  have := h.drawn t hmem
  omega

end Sound

/-! ## Histories -/

/-- What steps lead to, with the number of tokens drawn, those of them that are not yet inserted, and the number of
callbacks that are taken and not yet counted. -/
inductive Steps : Nat → List Token → Nat → Registry κ → Prop where
  | empty : Steps 0 [] 0 {}
  | draw {n begun : Nat} {free : List Token} {r : Registry κ} (h : Steps n free begun r) :
    Steps (n + 1) (r.draw.1 :: free) begun r.draw.2
  | insert {n begun : Nat} {free : List Token} {r : Registry κ} {t : Token} (h : Steps n free begun r)
    (ht : t ∈ free) (callback : κ) : Steps n (free.erase t) begun (r.insert t callback)
  | take {n begun : Nat} {free : List Token} {r : Registry κ} {t : Token} {callback : κ}
    (h : Steps n free begun r) (ht : r.slot? t = some (some callback)) : Steps n free (begun + 1) (r.take t).2
  | count {n begun : Nat} {free : List Token} {r : Registry κ} (h : Steps n free (begun + 1) r) :
    Steps n free begun r.count
  | erase {n begun : Nat} {free : List Token} {r : Registry κ} (h : Steps n free begun r) (t : Token) :
    Steps n free begun (r.erase t)

/-- The registries that steps lead to when this many tokens are drawn. -/
def Reachable (n : Nat) (r : Registry κ) : Prop := ∃ free begun, Steps n free begun r

theorem reachable_empty : Reachable 0 ({} : Registry κ) := ⟨[], 0, .empty⟩

/-- Each token that was drawn is inserted once at most, and each callback is counted once at most. -/
structure Accounted (n : Nat) (free : List Token) (begun : Nat) (r : Registry κ) : Prop where
  sound : r.Sound
  drawn : r.drawn = n
  absent : ∀ t ∈ free, t.id ≤ n ∧ r.slot? t = none
  nodup : free.Nodup
  callbacks : r.invocations + begun + r.armed + free.length ≤ n

namespace Accounted

variable {n begun : Nat} {free : List Token}

theorem draw (h : Accounted n free begun r) (hroom : n + 1 < Word.limit) :
    Accounted (n + 1) (r.draw.1 :: free) begun r.draw.2 := by
  have hn : r.drawn + 1 < Word.limit := by rw [h.drawn]; exact hroom
  have hid : r.draw.1.id = n + 1 := by rw [← h.drawn]; exact h.sound.next_eq hn
  refine ⟨h.sound.draw hn, by rw [h.sound.drawn_draw hn, h.drawn], ?_, ?_, ?_⟩
  · intro t ht
    rcases List.mem_cons.mp ht with rfl | ht
    · exact ⟨Nat.le_of_eq hid, h.sound.slot?_of_lt (by rw [hid, h.drawn]; exact Nat.lt_succ_self n)⟩
    · exact ⟨Nat.le_succ_of_le (h.absent t ht).1, (h.absent t ht).2⟩
  · refine List.nodup_cons.mpr ⟨fun hmem => ?_, h.nodup⟩
    have := (h.absent _ hmem).1
    omega
  · exact Nat.succ_le_succ h.callbacks

theorem insert (h : Accounted n free begun r) (ht : t ∈ free) (callback : κ) :
    Accounted n (free.erase t) begun (r.insert t callback) := by
  obtain ⟨hle, -⟩ := h.absent t ht
  refine ⟨h.sound.insert (by rw [h.drawn]; exact hle) callback, h.drawn, ?_, h.nodup.erase t, ?_⟩
  · intro u hu
    obtain ⟨hne, hu⟩ := h.nodup.mem_erase_iff.mp hu
    rw [slot?_insert, if_neg hne]
    exact h.absent u hu
  · have hcallbacks := h.callbacks
    have harmed := armed_insert_le r t callback
    have hlen := List.length_erase_of_mem ht
    have hpos := List.length_pos_of_mem ht
    change r.invocations + begun + (r.insert t callback).armed + (free.erase t).length ≤ n
    omega

theorem take {callback : κ} (h : Accounted n free begun r) (ht : r.slot? t = some (some callback)) :
    Accounted n free (begun + 1) (r.take t).2 := by
  rw [take_of_some ht]
  refine ⟨h.sound.disarm t, h.drawn, ?_, h.nodup, ?_⟩
  · intro u hu
    obtain ⟨hle, hnone⟩ := h.absent u hu
    refine ⟨hle, (slot?_disarm r t u).trans ((if_neg ?_).trans hnone)⟩
    rintro rfl
    rw [ht] at hnone
    cases hnone
  · have hcallbacks := h.callbacks
    have harmed := armed_disarm ht
    change r.invocations + (begun + 1) + (r.disarm t).armed + free.length ≤ n
    omega

theorem count (h : Accounted n free (begun + 1) r) (hroom : n < Word.limit) : Accounted n free begun r.count := by
  have hcallbacks := h.callbacks
  refine ⟨h.sound.count, h.drawn, h.absent, h.nodup, ?_⟩
  rw [invocations_count (by omega)]
  change r.invocations + 1 + begun + r.armed + free.length ≤ n
  omega

theorem erase (h : Accounted n free begun r) (t : Token) : Accounted n free begun (r.erase t) := by
  refine ⟨h.sound.erase t, h.drawn, ?_, h.nodup, ?_⟩
  · intro u hu
    refine ⟨(h.absent u hu).1, (slot?_erase r t u).trans ?_⟩
    by_cases hne : u = t
    · exact if_pos hne
    · exact (if_neg hne).trans (h.absent u hu).2
  · have hcallbacks := h.callbacks
    have harmed := armed_erase_le r t
    change r.invocations + begun + (r.erase t).armed + free.length ≤ n
    omega

end Accounted

theorem Steps.accounted {n begun : Nat} {free : List Token} (h : Steps n free begun r) (hroom : n < Word.limit) :
    Accounted n free begun r := by
  induction h with
  | empty => exact ⟨sound_empty, drawn_empty, nofun, List.nodup_nil, Nat.le_refl 0⟩
  | draw _ ih => exact (ih (Nat.lt_of_succ_lt hroom)).draw hroom
  | insert _ ht callback ih => exact (ih hroom).insert ht callback
  | take _ ht ih => exact (ih hroom).take ht
  | count _ ih => exact (ih hroom).count hroom
  | erase _ t ih => exact (ih hroom).erase t

namespace Reachable

variable {n : Nat} (h : Reachable n r) (hroom : n < Word.limit)

include h hroom

theorem sound : r.Sound := by
  obtain ⟨free, begun, hsteps⟩ := h
  exact (hsteps.accounted hroom).sound

theorem drawn_eq : r.drawn = n := by
  obtain ⟨free, begun, hsteps⟩ := h
  exact (hsteps.accounted hroom).drawn

theorem invocations_le : r.invocations ≤ n := by
  obtain ⟨free, begun, hsteps⟩ := h
  have := (hsteps.accounted hroom).callbacks
  omega

end Reachable

end PacketHost.Registry
