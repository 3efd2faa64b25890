import PacketHost.Registry.Action

/-!
# Guards that callbacks own

A callback whose slot is removed before it has begun is discarded, and the guards that it owns are dropped: their
slots are removed too, and with them further callbacks may be discarded. `Registry.cascade` lists the tokens whose
slots go when guards are dropped, in this order, and `Registry.shed` is the registry without them.
-/

namespace PacketHost.Registry

/-! ## Callbacks that have not begun -/

section

variable {κ : Type}

/-- The number of slots whose callback has not been taken. -/
def armed (r : Registry κ) : Nat := r.slots.countP fun s => s.2.isSome

theorem armed_erase_le (r : Registry κ) (t : Token) : (r.erase t).armed ≤ r.armed :=
  List.filter_sublist.countP_le

theorem armed_erase_lt {r : Registry κ} {t : Token} {callback : κ} (h : r.slot? t = some (some callback)) :
    (r.erase t).armed < r.armed := by
  obtain ⟨slots, next, invocations⟩ := r
  induction slots with
  | nil => cases h
  | cons s slots ih =>
      obtain ⟨u, c⟩ := s
      change List.lookup t ((u, c) :: slots) = _ at h
      have hrest := armed_erase_le (⟨slots, next, invocations⟩ : Registry κ) t
      simp only [armed, erase] at hrest ih ⊢
      rw [List.lookup_cons] at h
      by_cases hu : u = t
      · subst hu
        rw [beq_self_eq_true] at h
        obtain rfl : c = some callback := Option.some.inj h
        rw [List.filter_cons_of_neg (by simp), List.countP_cons_of_pos (by rfl)]
        exact Nat.lt_succ_of_le hrest
      · rw [beq_eq_false_iff_ne.mpr (Ne.symm hu)] at h
        rw [List.filter_cons_of_pos (by simpa using hu), List.countP_cons, List.countP_cons]
        exact Nat.add_lt_add_right (ih h) _

end

/-! ## Dropping guards -/

/-- The guards that the callback of a token owns, if it has not begun. -/
def guards (r : Registry Callback) (t : Token) : List Token :=
  match r.slot? t with
  | some (some callback) => callback.guards
  | _ => []

/-- A callback that is discarded is one less to discard; without one there is a guard less to drop. -/
theorem cascade_decreases (r : Registry Callback) (t : Token) (others : List Token) :
    Prod.Lex (· < ·) (· < ·) ((r.erase t).armed, (r.guards t ++ others).length) (r.armed, (t :: others).length) := by
  cases ht : r.slot? t with
  | none =>
      rw [guards, ht]
      exact Prod.Lex.right' _ (armed_erase_le r t) (Nat.lt_succ_self _)
  | some slot =>
      cases slot with
      | none =>
          rw [guards, ht]
          exact Prod.Lex.right' _ (armed_erase_le r t) (Nat.lt_succ_self _)
      | some callback => exact .left _ _ (armed_erase_lt ht)

/-- The tokens whose slots are removed when guards are dropped, one after the other. -/
def cascade (r : Registry Callback) (held : List Token) : List Token :=
  match held with
  | [] => []
  | t :: others => t :: (r.erase t).cascade (r.guards t ++ others)
termination_by (r.armed, held.length)
decreasing_by exact cascade_decreases r t others

/-- Drops guards, and with them those of the callbacks that are discarded on the way. -/
def shed (r : Registry Callback) (held : List Token) : Registry Callback := (r.cascade held).foldl erase r

/-- Removes a registration, and tells whether there was one. -/
def unregister (r : Registry Callback) (t : Token) : Bool × Registry Callback := (r.contains t, r.shed [t])

end PacketHost.Registry
