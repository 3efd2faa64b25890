import Mathlib
import PacketHost.Interleaving

/-!
# Runs of a schedule

A turn either leaves the group as it is or replaces one member and the shared state by what its step gives. From
this follow the two rules by which whole runs are treated: what every turn preserves holds after a run
(`run_preserves`), and a member whose steps make a cost smaller has ended after as many turns (`cost_run`).
-/

namespace PacketHost.Group

variable {σ ω : Type} {step : σ → ω → Option (σ × ω)}

theorem turn_cases (step : σ → ω → Option (σ × ω)) (g : Group σ ω) (index : Nat) :
    (turn step g index = g ∧ ∀ w, g.members[index]? = some w → step g.shared w = none) ∨
    ∃ w s w', g.members[index]? = some w ∧ step g.shared w = some (s, w') ∧
      turn step g index = ⟨s, g.members.set index w'⟩ := by
  unfold turn
  cases hw : g.members[index]? with
  | none => exact .inl ⟨rfl, fun _ h => nomatch h⟩
  | some w =>
      cases hs : step g.shared w with
      | none =>
          left
          simp only [hs]
          refine ⟨trivial, fun w' h => ?_⟩
          cases h
          exact hs
      | some next =>
          obtain ⟨s, w'⟩ := next
          right
          refine ⟨w, s, w', rfl, hs, ?_⟩
          simp only [hs]

/-- The member with an index, and the others. -/
theorem exists_others {members : List ω} {index : Nat} {w : ω} (h : members[index]? = some w) :
    ∃ others, members.Perm (w :: others) ∧ ∀ w', (members.set index w').Perm (w' :: others) := by
  obtain ⟨hi, rfl⟩ := List.getElem?_eq_some_iff.mp h
  refine ⟨members.take index ++ members.drop (index + 1), ?_, fun w' => ?_⟩
  · have hsplit : members.take index ++ members[index] :: members.drop (index + 1) = members := by
      rw [List.getElem_cons_drop hi, List.take_append_drop]
    exact (List.Perm.of_eq hsplit.symm).trans List.perm_middle
  · rw [List.set_eq_take_append_cons_drop, if_pos hi]
    exact List.perm_middle

theorem turn_of_step {g : Group σ ω} {index : Nat} {w w' : ω} {s : σ} (hw : g.members[index]? = some w)
    (hs : step g.shared w = some (s, w')) : turn step g index = ⟨s, g.members.set index w'⟩ := by
  unfold turn
  simp only [hw, hs]

/-- The turns of others leave a member as it is. -/
theorem getElem?_run_of_not_mem (g : Group σ ω) {schedule : List Nat} {index : Nat} (h : index ∉ schedule) :
    (run step g schedule).members[index]? = g.members[index]? := by
  induction schedule generalizing g with
  | nil => rfl
  | cons i schedule ih =>
      have hne := List.ne_of_not_mem_cons h
      refine (ih (turn step g i) (List.not_mem_of_not_mem_cons h)).trans ?_
      rcases turn_cases step g i with ⟨hturn, -⟩ | ⟨w, s, w', -, -, hturn⟩
      · rw [hturn]
      · rw [hturn]
        exact List.getElem?_set_ne (Ne.symm hne)

theorem run_preserves {P : Group σ ω → Prop} (h : ∀ g index, P g → P (turn step g index)) {g : Group σ ω}
    (hg : P g) (schedule : List Nat) : P (run step g schedule) := by
  induction schedule generalizing g with
  | nil => exact hg
  | cons index schedule ih => exact ih (h g index hg)

/-- Each turn of a member that has not ended makes its cost smaller, and no other turn changes it. -/
theorem cost_run {P : Group σ ω → Prop} (cost : ω → Nat) (h : ∀ g index, P g → P (turn step g index))
    (hstep : ∀ g, P g → ∀ w ∈ g.members, ∀ s w', step g.shared w = some (s, w') → cost w' < cost w)
    (hend : ∀ g, P g → ∀ w ∈ g.members, step g.shared w = none → cost w = 0)
    {g : Group σ ω} (hg : P g) (schedule : List Nat) {index : Nat} {w : ω} (hw : g.members[index]? = some w) :
    ∃ w', (run step g schedule).members[index]? = some w' ∧ cost w' ≤ cost w - schedule.count index := by
  induction schedule generalizing g w with
  | nil => exact ⟨w, hw, Nat.le_refl _⟩
  | cons i schedule ih =>
      have hnext := h g i hg
      rw [List.count_cons]
      rcases turn_cases step g i with ⟨hturn, hnone⟩ | ⟨v, s, v', hv, hs, hturn⟩
      · obtain ⟨w', hw', hle⟩ := ih hg hw
        refine ⟨w', ?_, ?_⟩
        · change (run step (turn step g i) schedule).members[index]? = _
          rw [hturn]
          exact hw'
        · by_cases hi : i = index
          · subst hi
            have := hend g hg w (List.mem_of_getElem? hw) (hnone w hw)
            omega
          · rw [if_neg (by simpa using hi)]
            exact hle
      · by_cases hi : i = index
        · subst hi
          rw [hv] at hw
          cases hw
          have hcost := hstep g hg w (List.mem_of_getElem? hv) s v' hs
          have hset : (turn step g i).members[i]? = some v' := by
            rw [hturn]
            exact List.getElem?_set_self (List.getElem?_eq_some_iff.mp hv).1
          obtain ⟨w', hw', hle⟩ := ih hnext hset
          refine ⟨w', hw', ?_⟩
          rw [if_pos (beq_self_eq_true i)]
          omega
        · have hset : (turn step g i).members[index]? = some w := by
            rw [hturn]
            change (g.members.set i v')[index]? = _
            rw [List.getElem?_set_ne hi]
            exact hw
          obtain ⟨w', hw', hle⟩ := ih hnext hset
          refine ⟨w', hw', ?_⟩
          rw [if_neg (by simpa using hi)]
          exact hle

end PacketHost.Group
