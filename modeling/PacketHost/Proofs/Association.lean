import Mathlib

/-!
# Lists of keys with values

The value of a key is set by dropping what the list has for the key and adding the new value at the end. Then each key
keeps one value at most, and all other keys keep theirs.
-/

namespace PacketHost.Association

variable {α β : Type} [BEq α] [LawfulBEq α] [DecidableEq α]

theorem lookup_filter_ne (entries : List (α × β)) (k u : α) :
    (entries.filter fun e => e.1 ≠ k).lookup u = if u = k then none else entries.lookup u := by
  induction entries with
  | nil => simp
  | cons e entries ih =>
      obtain ⟨key, value⟩ := e
      by_cases hk : key = k
      · subst hk
        rw [List.filter_cons_of_neg (by simp), ih, List.lookup_cons]
        by_cases hu : u = key
        · rw [if_pos hu, if_pos hu]
        · rw [if_neg hu, if_neg hu, beq_eq_false_iff_ne.mpr hu]
      · rw [List.filter_cons_of_pos (by simpa using hk), List.lookup_cons, List.lookup_cons, ih]
        by_cases hu : u = key
        · subst hu
          rw [beq_self_eq_true]
          exact (if_neg hk).symm
        · rw [beq_eq_false_iff_ne.mpr hu]

theorem lookup_set (entries : List (α × β)) (k u : α) (value : β) :
    ((entries.filter fun e => e.1 ≠ k) ++ [(k, value)]).lookup u =
      if u = k then some value else entries.lookup u := by
  rw [List.lookup_append, lookup_filter_ne]
  by_cases hu : u = k
  · rw [if_pos hu, if_pos hu, hu, List.lookup_cons, beq_self_eq_true]
    rfl
  · rw [if_neg hu, if_neg hu, List.lookup_cons, beq_eq_false_iff_ne.mpr hu, List.lookup_nil, Option.or_none]

omit [DecidableEq α] in
theorem lookup_isSome_iff_mem {entries : List (α × β)} {k : α} :
    (entries.lookup k).isSome = true ↔ k ∈ entries.map Prod.fst := by
  rw [List.lookup_isSome_iff]
  simp only [beq_iff_eq, List.mem_map]
  exact exists_congr fun e => and_congr_right fun _ => eq_comm

omit [BEq α] [LawfulBEq α] in
theorem nodup_set {entries : List (α × β)} (h : (entries.map Prod.fst).Nodup) (k : α) (value : β) :
    (((entries.filter fun e => e.1 ≠ k) ++ [(k, value)]).map Prod.fst).Nodup := by
  rw [List.map_append]
  refine List.nodup_append.mpr ⟨h.sublist (List.filter_sublist.map Prod.fst), List.nodup_singleton k, ?_⟩
  rintro u hu v hv rfl
  obtain ⟨e, he, rfl⟩ := List.mem_map.mp hu
  have hne : e.1 ≠ k := by simpa using (List.mem_filter.mp he).2
  exact hne (List.mem_singleton.mp hv)

end PacketHost.Association
