import PacketHost.Json.Grammar

/-!
# What the content of a string stands for

Decoding answers with the text that the content of a string stands for and refuses content that stands for none, which
can only be due to half a character (`decodeString?_eq_some_iff`).
-/

namespace PacketHost.Json

/-- A character that needs no escape. -/
def isPlain (c : Char) : Bool := c ≠ '"' && c ≠ '\\' && 0x20 ≤ c.toNat

/-- Text that needs no escapes may be written as it is. -/
theorem spells_self {text : List Char} (h : text.all isPlain = true) : Spells text text := by
  induction text with
  | nil => exact .nil
  | cons c text ih =>
      rw [List.all_cons, Bool.and_eq_true] at h
      obtain ⟨hc, hrest⟩ := h
      simp only [isPlain, Bool.and_eq_true, decide_eq_true_eq] at hc
      exact .plain hc.1.1 hc.1.2 hc.2 (ih hrest)

theorem simpleEscape?_eq_some_ne {e c : Char} (h : simpleEscape? e = some c) : e ≠ 'u' := by
  rintro rfl
  cases h

theorem decodeString?_escape {e c : Char} (h : simpleEscape? e = some c) (content : List Char) :
    decodeString? ('\\' :: e :: content) = (decodeString? content).map (c :: ·) := by
  rw [decodeString?.eq_3 e content fun _ _ _ _ _ he => absurd he (simpleEscape?_eq_some_ne h), h]

theorem decodeString?_plain {c : Char} (h : c ≠ '\\') (content : List Char) :
    decodeString? (c :: content) = (decodeString? content).map (c :: ·) := by
  rw [decodeString?.eq_4 c content (fun _ _ _ _ _ hc => absurd hc h) (fun _ _ hc => absurd hc h), if_neg h]

theorem decodeString?_of_spells {content text : List Char} (h : Spells content text) :
    decodeString? content = some text := by
  induction h with
  | nil => rfl
  | plain hquote hslash hcontrol h ih => rw [decodeString?_plain hslash, ih, Option.map_some]
  | escape he h ih => rw [decodeString?_escape he, ih, Option.map_some]
  | hexadecimal hword hwhole h ih =>
      rw [decodeString?, hword]
      simp only
      rw [if_neg (by omega), if_neg (by omega), ih, Option.map_some]
  | halves hhigh hhigh' hlow hlow' h ih =>
      rw [decodeString?, hhigh]
      simp only
      rw [if_pos hhigh', hlow]
      simp only
      rw [if_pos hlow', ih, Option.map_some]

theorem IsContent.of_hexadecimal {a b c d : Char} {content : List Char}
    (h : IsContent ('\\' :: 'u' :: a :: b :: c :: d :: content)) : IsContent content := by
  cases h with
  | plain hquote hslash hcontrol h => exact absurd rfl hslash
  | escape he h => cases he
  | hexadecimal hword h => exact h

theorem IsContent.of_escape {e c : Char} {content : List Char} (h : IsContent ('\\' :: e :: content))
    (he : simpleEscape? e = some c) : IsContent content := by
  cases h with
  | plain hquote hslash hcontrol h => exact absurd rfl hslash
  | escape he' h => exact h
  | hexadecimal hword h => cases he

theorem IsContent.of_plain {c : Char} {content : List Char} (h : IsContent (c :: content)) (hslash : c ≠ '\\') :
    c ≠ '"' ∧ 0x20 ≤ c.toNat ∧ IsContent content := by
  cases h with
  | plain hquote hslash' hcontrol h => exact ⟨hquote, hcontrol, h⟩
  | escape he h => exact absurd rfl hslash
  | hexadecimal hword h => exact absurd rfl hslash

theorem Spells.isContent {content text : List Char} (h : Spells content text) : IsContent content := by
  induction h with
  | nil => exact .nil
  | plain hquote hslash hcontrol h ih => exact .plain hquote hslash hcontrol ih
  | escape he h ih => exact .escape he ih
  | hexadecimal hword hwhole h ih => exact .hexadecimal hword ih
  | halves hhigh hhigh' hlow hlow' h ih => exact .hexadecimal hhigh (.hexadecimal hlow ih)

theorem spells_of_decodeString? {content text : List Char} (hcontent : IsContent content)
    (h : decodeString? content = some text) : Spells content text := by
  fun_induction decodeString? content generalizing text with
  | case1 =>
      cases h
      exact .nil
  | case4 a b c d high hhigh hhigh' a' b' c' d' rest low hlow hlow' ih =>
      obtain ⟨behind, hbehind, rfl⟩ := Option.map_eq_some_iff.mp h
      exact .halves hhigh hhigh' hlow hlow' (ih hcontent.of_hexadecimal.of_hexadecimal hbehind)
  | case8 a b c d rest word hword hhigh hlow ih =>
      obtain ⟨behind, hbehind, rfl⟩ := Option.map_eq_some_iff.mp h
      exact .hexadecimal hword (by omega) (ih hcontent.of_hexadecimal hbehind)
  | case9 e rest _ c hescape ih =>
      obtain ⟨behind, hbehind, rfl⟩ := Option.map_eq_some_iff.mp h
      exact .escape hescape (ih (hcontent.of_escape hescape) hbehind)
  | case12 c rest _ _ hslash ih =>
      obtain ⟨behind, hbehind, rfl⟩ := Option.map_eq_some_iff.mp h
      obtain ⟨hquote, hcontrol, hrest⟩ := hcontent.of_plain hslash
      exact .plain hquote hslash hcontrol (ih hrest hbehind)
  | _ => cases h

/-- Content can be decoded exactly if it stands for a text. -/
theorem decodeString?_eq_some_iff {content text : List Char} (h : IsContent content) :
    decodeString? content = some text ↔ Spells content text :=
  ⟨spells_of_decodeString? h, decodeString?_of_spells⟩

theorem spellsNames_self {members : List (List Char × Value)} (h : ∀ m ∈ members, Spells m.1 m.1) :
    SpellsNames members members := by
  induction members with
  | nil => exact .nil
  | cons m members ih =>
      obtain ⟨hm, hrest⟩ := List.forall_mem_cons.mp h
      exact .cons hm (ih hrest)

end PacketHost.Json
