import PacketHost.Proofs.Json.Reading

/-!
# Printing is right

A value is well-formed if its numbers and strings are. Texts are only of well-formed values, and each of these is read
back from the text that it is printed as (`read?_print`).
-/

namespace PacketHost.Json

theorem Spaced.wellFormed {s : List Char} {ts : List Token} (h : Spaced s ts) : ∀ t ∈ ts, t.WellFormed := by
  induction h with
  | nil => exact nofun
  | blank hblank h ih => exact ih
  | token ht h ih => exact List.forall_mem_cons.mpr ⟨ht, ih⟩

theorem spaced_flatMap {ts : List Token} (h : ∀ t ∈ ts, t.WellFormed) : Spaced (ts.flatMap Token.text) ts := by
  induction ts with
  | nil => exact .nil
  | cons t ts ih =>
      obtain ⟨ht, hts⟩ := List.forall_mem_cons.mp h
      rw [List.flatMap_cons]
      exact .token ht (ih hts)

def Value.WellFormed (v : Value) : Prop := ∀ t ∈ v.tokens, t.WellFormed

theorem Writes.wellFormed {s : List Char} {v : Value} (h : Writes s v) : v.WellFormed := Spaced.wellFormed h

namespace Value

theorem writes_print {v : Value} (h : v.WellFormed) : Writes v.print v := spaced_flatMap h

theorem read?_print {v : Value} (h : v.WellFormed) : read? (String.ofList v.print) = some v := by
  rw [read?_eq_some_iff, String.toList_ofList]
  exact writes_print h

theorem wellFormed_number {literal : List Char} : (number literal).WellFormed ↔ IsNumber literal :=
  List.forall_mem_singleton

theorem wellFormed_memberTokens_cons (m : List Char × Value) (ts : List Token) :
    (∀ t ∈ .string m.1 :: .colon :: (m.2.tokens ++ ts), t.WellFormed) ↔
      (IsContent m.1 ∧ m.2.WellFormed) ∧ ∀ t ∈ ts, t.WellFormed := by
  rw [List.forall_mem_cons, List.forall_mem_cons, List.forall_mem_append, and_assoc]
  exact and_congr_right fun _ => and_iff_right trivial

theorem wellFormed_memberTokens {members : List (List Char × Value)} :
    (∀ t ∈ memberTokens members, t.WellFormed) ↔ ∀ m ∈ members, IsContent m.1 ∧ m.2.WellFormed := by
  induction members with
  | nil => exact iff_of_true (List.forall_mem_singleton.mpr trivial) nofun
  | cons m members ih =>
      rw [List.forall_mem_cons, ← ih]
      cases members with
      | nil => exact wellFormed_memberTokens_cons m [.closeObject]
      | cons n members =>
          rw [memberTokens, wellFormed_memberTokens_cons, List.forall_mem_cons]
          · exact and_congr_right fun _ => and_iff_right trivial
          · exact List.cons_ne_nil n members

theorem wellFormed_object {members : List (List Char × Value)} :
    (object members).WellFormed ↔ ∀ m ∈ members, IsContent m.1 ∧ m.2.WellFormed := by
  rw [← wellFormed_memberTokens]
  exact List.forall_mem_cons.trans (and_iff_right trivial)

end Value

end PacketHost.Json
