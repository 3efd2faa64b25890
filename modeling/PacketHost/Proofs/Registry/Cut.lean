import Mathlib.Logic.Hydra

/-!
# Replacing a member by smaller ones

`Cut lt` relates a multiset to one from which it arises when a member is replaced by any number of smaller members and
others may be left out. Such a replacement is made by moves of `Relation.CutExpand`, so that it cannot go on forever if
`lt` cannot (`Cut.wellFounded`).
-/

namespace PacketHost

open Relation

variable {α : Type}

/-- The first multiset arises from the second when a member gives way to smaller ones. -/
def Cut (lt : α → α → Prop) (small big : Multiset α) : Prop :=
  ∃ a rest new, {a} + rest ≤ big ∧ small = new + rest ∧ ∀ b ∈ new, lt b a

namespace Cut

variable {lt : α → α → Prop} {small big new rest : Multiset α}

theorem of_le (a : α) (hnew : ∀ b ∈ new, lt b a) (h : {a} + rest ≤ big) : Cut lt (new + rest) big :=
  ⟨a, rest, new, h, rfl, hnew⟩

theorem of_eq {small' big' : Multiset α} (h : Cut lt small big) (hsmall : small' = small) (hbig : big' = big) :
    Cut lt small' big' := by
  rw [hsmall, hbig]
  exact h

/-- A member that is left out gives way to none. -/
theorem reflTransGen_add (gone rest : Multiset α) : ReflTransGen (CutExpand lt) rest (gone + rest) := by
  induction gone using Multiset.induction_on with
  | empty => rw [zero_add]
  | cons a gone ih =>
      refine ih.tail ⟨0, a, nofun, ?_⟩
      rw [add_zero, Multiset.cons_add, Multiset.add_comm, Multiset.singleton_add]

theorem transGen_cutExpand (h : Cut lt small big) : TransGen (CutExpand lt) small big := by
  obtain ⟨a, rest, new, hle, rfl, hnew⟩ := h
  obtain ⟨gone, rfl⟩ := Multiset.le_iff_exists_add.mp hle
  refine .tail' (reflTransGen_add gone _) ⟨new, a, hnew, ?_⟩
  ac_rfl

/-- Members cannot be replaced by smaller ones forever. -/
theorem wellFounded (h : WellFounded lt) : WellFounded (Cut lt) :=
  Subrelation.wf transGen_cutExpand h.cutExpand.transGen

end Cut

end PacketHost
