import PacketHost.Proofs.Limits.Object

/-!
# Limits that are written and read again

Rendered limits are an object that gives each field once, so they are read back unchanged, unless the size is zero and
they are refused (`parse_render`).
-/

namespace PacketHost.Limits

/-- The members that limits are rendered as. -/
def members (l : Limits) : List (List Char × Json.Value) := Field.all.map fun f => (f.name.toList, l.value f)

theorem spells_name (f : Field) : Json.Spells f.name.toList f.name.toList := Json.spells_self (by cases f <;> rfl)

theorem wellFormed_value (l : Limits) (f : Field) : (l.value f).WellFormed := by
  cases f with
  | maxPacketSize => exact Json.Value.wellFormed_number.mpr (Json.isNumber_decimal l.maxPacketSize)
  | maxHeaders => exact Json.Value.wellFormed_number.mpr (Json.isNumber_decimal l.maxHeaders)
  | rejectEmptyKeys => exact List.forall_mem_singleton.mpr trivial

theorem writesObject_render (l : Limits) : Json.WritesObject (render l).toList l.members := by
  refine ⟨l.members, ?_, Json.spellsNames_self fun m hm => ?_⟩
  · rw [render, String.toList_ofList]
    refine Json.Value.writes_print (Json.Value.wellFormed_object.mpr fun m hm => ?_)
    obtain ⟨f, -, rfl⟩ := List.mem_map.mp hm
    exact ⟨(spells_name f).isContent, wellFormed_value l f⟩
  · obtain ⟨f, -, rfl⟩ := List.mem_map.mp hm
    exact spells_name f

/-- No field is left out and none is given twice. -/
theorem given_members (l : Limits) (f : Field) : f.given l.members = [l.value f] := by
  cases f <;> rfl

theorem acceptable_members {l : Limits} (h : ∀ f : Field, f.Admits (l.value f)) : Acceptable l.members := by
  intro f
  rw [given_members]
  exact ⟨Nat.le_refl 1, List.forall_mem_singleton.mpr (h f)⟩

theorem follows_members (l : Limits) : l.Follows l.members := by
  intro f
  rw [given_members]
  rfl

theorem read?_render {l : Limits} (h : ∀ f : Field, f.Admits (l.value f)) :
    (Json.read? (render l)).bind ofValue? = some l :=
  (read?_of_object (writesObject_render l)).mpr ⟨acceptable_members h, follows_members l⟩

theorem admits_value {l : Limits} (hsize : l.maxPacketSize ≤ 2 ^ 64 - 1) (hheaders : l.maxHeaders ≤ 2 ^ 64 - 1)
    (f : Field) : f.Admits (l.value f) := by
  cases f with
  | maxPacketSize => exact .maxPacketSize hsize
  | maxHeaders => exact .maxHeaders hheaders
  | rejectEmptyKeys => exact .rejectEmptyKeys l.rejectEmptyKeys

theorem toList_toString_nat (n : Nat) : (toString n).toList = Json.decimal n := by
  rw [Json.decimal_eq_toDigits]
  exact String.toList_ofList

theorem toList_toString_bool (b : Bool) : (toString b).toList = (Json.Token.bool b).text := by
  cases b <;> rfl

theorem render_eq (l : Limits) :
    render l = "\x7b\"max_packet_size\":" ++ toString l.maxPacketSize ++ ",\"max_headers\":" ++
      toString l.maxHeaders ++ ",\"reject_empty_keys\":" ++ toString l.rejectEmptyKeys ++ "\x7d" := by
  refine String.toList_injective ?_
  simp only [String.toList_append, toList_toString_nat, toList_toString_bool]
  simp [render, Json.Value.print, Json.Value.tokens, Json.Value.memberTokens, Field.all, Field.name, value,
    Json.Value.ofNat, Json.Token.text]

/-- Limits are rendered as an object without blanks, with the fields in order and words in decimal. Reading it gives
the same limits, or the error that a size of zero has. So limits that were read are the same when they are rendered and
read again. -/
theorem parse_render :
    (∀ l : Limits, render l = "\x7b\"max_packet_size\":" ++ toString l.maxPacketSize ++ ",\"max_headers\":" ++
      toString l.maxHeaders ++ ",\"reject_empty_keys\":" ++ toString l.rejectEmptyKeys ++ "\x7d") ∧
    (∀ l : Limits, l.maxPacketSize ≤ 2 ^ 64 - 1 → l.maxHeaders ≤ 2 ^ 64 - 1 →
      (parse (render l)).mapError Problem.error =
        if l.maxPacketSize = 0 then .error (.limits "max_packet_size must be nonzero") else .ok l) ∧
    ∀ text l, parse text = .ok l → parse (render l) = .ok l := by
  refine ⟨render_eq, fun l hsize hheaders => ?_, fun text l h => ?_⟩
  · rw [parse_of_some (read?_render (admits_value hsize hheaders))]
    split
    · rfl
    · rfl
  · obtain ⟨hread, hzero⟩ := parse_eq_ok_iff.mp h
    obtain ⟨v, -, hv⟩ := Option.bind_eq_some_iff.mp hread
    exact parse_eq_ok_iff.mpr ⟨read?_render (admits_of_ofValue? hv), hzero⟩

/-- The largest words come back, and limits that allow no packet are refused. -/
theorem parse_render_largest :
    parse (render { maxPacketSize := 2 ^ 64 - 1, maxHeaders := 2 ^ 64 - 1, rejectEmptyKeys := true }) =
      .ok { maxPacketSize := 2 ^ 64 - 1, maxHeaders := 2 ^ 64 - 1, rejectEmptyKeys := true } ∧
    (parse (render { maxPacketSize := 0 })).mapError Problem.error =
      .error (.limits "max_packet_size must be nonzero") := by
  refine ⟨parse_render.2.2 "[18446744073709551615, 18446744073709551615, true]" _ (by cbv), ?_⟩
  exact parse_render.2.1 { maxPacketSize := 0 } (by decide) (by decide)

end PacketHost.Limits
