import Mathlib
import PacketHost.Json.Grammar

/-!
# Taking a token off a text

`scanToken` takes exactly the tokens of the grammar off a text: what it takes is a well-formed token
(`scanToken_sound`), and a well-formed token is taken off whole (`scanToken_text`). A number is the only token that can
be too short, so the text behind it must not go on as a number does.
-/

namespace PacketHost.Json

/-! ## Strings -/

theorem scanString_content {content : List Char} (h : IsContent content) (rest : List Char) :
    scanString (content ++ '"' :: rest) = some (content, rest) := by
  induction h with
  | nil => rw [List.nil_append, scanString]
  | @plain c content hquote hslash hcontrol h ih =>
      have hkept : ¬(c = '\\' ∨ c.toNat < 0x20) := not_or.mpr ⟨hslash, Nat.not_lt.mpr hcontrol⟩
      rw [List.cons_append, scanString.eq_5 c _ hquote (fun _ _ _ _ _ hc => absurd hc hslash)
        (fun _ _ hc => absurd hc hslash), if_neg hkept, ih]
      rfl
  | @escape e c content he h ih =>
      have hu : e ≠ 'u' := by
        rintro rfl
        cases he
      rw [List.cons_append, List.cons_append, scanString.eq_4 e _ (fun _ _ _ _ _ hc => absurd hc hu), he, ih]
      rfl
  | @hexadecimal a b c d word content hword h ih =>
      simp only [List.cons_append]
      rw [scanString, hword, ih]
      rfl

theorem scanString_sound {s content rest : List Char} (h : scanString s = some (content, rest)) :
    IsContent content ∧ s = content ++ '"' :: rest := by
  fun_induction scanString s generalizing content rest with
  | case1 => cases h
  | case2 tail =>
      cases h
      exact ⟨.nil, rfl⟩
  | case3 a b c d tail hword ih =>
      obtain ⟨⟨content', rest'⟩, hp, he⟩ := Option.map_eq_some_iff.mp h
      obtain ⟨word, hw⟩ := Option.isSome_iff_exists.mp hword
      obtain ⟨hcontent, rfl⟩ := ih hp
      cases he
      exact ⟨.hexadecimal hw hcontent, rfl⟩
  | case4 => cases h
  | case5 e tail _ hescape ih =>
      obtain ⟨⟨content', rest'⟩, hp, he⟩ := Option.map_eq_some_iff.mp h
      obtain ⟨c, hc⟩ := Option.isSome_iff_exists.mp hescape
      obtain ⟨hcontent, rfl⟩ := ih hp
      cases he
      exact ⟨.escape hc hcontent, rfl⟩
  | case6 => cases h
  | case7 => cases h
  | case8 c tail hquote _ _ hkept ih =>
      obtain ⟨⟨content', rest'⟩, hp, he⟩ := Option.map_eq_some_iff.mp h
      obtain ⟨hslash, hcontrol⟩ := not_or.mp hkept
      obtain ⟨hcontent, rfl⟩ := ih hp
      cases he
      exact ⟨.plain hquote hslash (Nat.not_lt.mp hcontrol) hcontent, rfl⟩

/-! ## Numbers -/

/-- What stands behind a number: nothing that would belong to it. -/
def EndsNumber (rest : List Char) : Prop :=
  ∀ c ∈ rest.head?, isDigit c = false ∧ c ≠ '.' ∧ c ≠ 'e' ∧ c ≠ 'E'

def EndsDigits (rest : List Char) : Prop := ∀ c ∈ rest.head?, isDigit c = false

theorem EndsNumber.endsDigits {rest : List Char} (h : EndsNumber rest) : EndsDigits rest := fun c hc => (h c hc).1

theorem scanDigits_append {ds rest : List Char} (h : IsDigits ds) (hrest : EndsDigits rest) :
    scanDigits (ds ++ rest) = some (ds, rest) := by
  have htake : (ds ++ rest).takeWhile isDigit = ds := by
    rw [List.takeWhile_append_of_pos h.2]
    cases rest with
    | nil => simp
    | cons c rest => simp [hrest c rfl]
  have hdrop : (ds ++ rest).dropWhile isDigit = rest := by
    have happend := List.takeWhile_append_dropWhile (p := isDigit) (l := ds ++ rest)
    rw [htake] at happend
    exact List.append_cancel_left happend
  unfold scanDigits
  rw [htake, hdrop]
  cases ds with
  | nil => exact absurd rfl h.1
  | cons d ds => rfl

theorem scanDigits_sound {s ds rest : List Char} (h : scanDigits s = some (ds, rest)) :
    IsDigits ds ∧ s = ds ++ rest := by
  unfold scanDigits at h
  split at h
  · cases h
  · rename_i d ds' htake
    cases h
    refine ⟨⟨List.cons_ne_nil d ds', fun c hc => ?_⟩, ?_⟩
    · rw [← htake] at hc
      exact List.mem_takeWhile_imp hc
    · rw [← htake, List.takeWhile_append_dropWhile]

theorem scanInteger_append {ds rest : List Char} (h : IsInteger ds) (hrest : EndsDigits rest) :
    scanInteger (ds ++ rest) = some (ds, rest) := by
  unfold scanInteger
  rw [scanDigits_append h.1 hrest]
  split
  · rename_i c ds' rest' heq
    cases heq
    cases h.2 rfl
  · rfl

theorem scanInteger_sound {s ds rest : List Char} (h : scanInteger s = some (ds, rest)) :
    IsInteger ds ∧ s = ds ++ rest := by
  unfold scanInteger at h
  split at h
  · cases h
  · rename_i hzero
    obtain ⟨hds, rfl⟩ := scanDigits_sound h
    refine ⟨⟨hds, fun hhead => ?_⟩, rfl⟩
    cases ds with
    | nil => cases hhead
    | cons d ds =>
        cases hhead
        cases ds with
        | nil => rfl
        | cons d' ds => exact absurd h (hzero d' ds rest)

theorem scanFraction_append {s rest : List Char} (h : IsFraction s) (hrest : EndsDigits rest)
    (hpoint : '.' ∉ rest.head?) : scanFraction (s ++ rest) = some (s, rest) := by
  cases h with
  | none =>
      rw [List.nil_append, scanFraction]
      rintro tail rfl
      exact hpoint rfl
  | some h =>
      rw [List.cons_append, scanFraction, scanDigits_append h hrest]
      rfl

theorem scanFraction_sound {s fraction rest : List Char} (h : scanFraction s = some (fraction, rest)) :
    IsFraction fraction ∧ s = fraction ++ rest := by
  unfold scanFraction at h
  split at h
  · obtain ⟨⟨ds, rest'⟩, hp, he⟩ := Option.map_eq_some_iff.mp h
    obtain ⟨hds, rfl⟩ := scanDigits_sound hp
    cases he
    exact ⟨.some hds, rfl⟩
  · cases h
    exact ⟨.none, rfl⟩

theorem scanSign_append {sign ds rest : List Char} (h : IsSign sign) (hds : IsDigits ds) :
    scanSign (sign ++ (ds ++ rest)) = (sign, ds ++ rest) := by
  cases h with
  | none =>
      obtain ⟨hne, hdigits⟩ := hds
      cases ds with
      | nil => exact absurd rfl hne
      | cons d ds =>
          have hd : isDigit d = true := hdigits d List.mem_cons_self
          rw [List.nil_append, List.cons_append, scanSign]
          · intro _ heq
            cases heq
            cases hd
          · intro _ heq
            cases heq
            cases hd
  | plus => rfl
  | minus => rfl

theorem scanSign_sound (s : List Char) : IsSign (scanSign s).1 ∧ s = (scanSign s).1 ++ (scanSign s).2 := by
  unfold scanSign
  split
  · exact ⟨.plus, rfl⟩
  · exact ⟨.minus, rfl⟩
  · exact ⟨.none, rfl⟩

theorem scanExponent_append {s rest : List Char} (h : IsExponent s) (hrest : EndsNumber rest) :
    scanExponent (s ++ rest) = some (s, rest) := by
  cases h with
  | none =>
      cases rest with
      | nil => rfl
      | cons c rest =>
          obtain ⟨-, -, hlower, hupper⟩ := hrest c rfl
          rw [List.nil_append, scanExponent, if_neg (not_or.mpr ⟨hlower, hupper⟩)]
  | some he hsign h =>
      rw [List.cons_append, List.append_assoc, scanExponent, if_pos he, scanSign_append hsign h]
      simp only [scanDigits_append h hrest.endsDigits, Option.map_some]

theorem scanExponent_sound {s exponent rest : List Char} (h : scanExponent s = some (exponent, rest)) :
    IsExponent exponent ∧ s = exponent ++ rest := by
  unfold scanExponent at h
  split at h
  · rename_i c tail
    split at h
    · rename_i hc
      have hsound := scanSign_sound tail
      generalize scanSign tail = found at h hsound
      obtain ⟨sign, behind⟩ := found
      obtain ⟨hsign, rfl⟩ := hsound
      obtain ⟨⟨ds, rest'⟩, hp, he⟩ := Option.map_eq_some_iff.mp h
      obtain ⟨hds, rfl⟩ := scanDigits_sound hp
      cases he
      refine ⟨.some hc hsign hds, ?_⟩
      rw [List.cons_append, List.append_assoc]
    · cases h
      exact ⟨.none, rfl⟩
  · cases h
    exact ⟨.none, rfl⟩

/-- An exponent starts with its letter, so that it ends the digits and the fraction before it. -/
theorem IsExponent.head_append {exponent rest : List Char} (h : IsExponent exponent) (hrest : EndsNumber rest) :
    EndsDigits (exponent ++ rest) ∧ '.' ∉ (exponent ++ rest).head? := by
  cases h with
  | none => exact ⟨hrest.endsDigits, fun hpoint => (hrest '.' hpoint).2.1 rfl⟩
  | some he hsign h =>
      constructor
      · intro c hc
        cases hc
        rcases he with rfl | rfl <;> decide
      · intro hc
        cases hc
        rcases he with he | he <;> cases he

theorem IsFraction.head_append {fraction rest : List Char} (h : IsFraction fraction) (hrest : EndsDigits rest) :
    EndsDigits (fraction ++ rest) := by
  cases h with
  | none => exact hrest
  | some h =>
      intro c hc
      cases hc
      decide

theorem scanUnsigned_append {s rest : List Char} (h : IsUnsigned s) (hrest : EndsNumber rest) :
    scanUnsigned (s ++ rest) = some (s, rest) := by
  cases h with
  | @mk integer fraction exponent hinteger hfraction hexponent =>
      obtain ⟨hdigits, hpoint⟩ := hexponent.head_append hrest
      unfold scanUnsigned
      simp only [List.append_assoc, scanInteger_append hinteger (hfraction.head_append hdigits),
        scanFraction_append hfraction hdigits hpoint, scanExponent_append hexponent hrest, Option.bind_eq_bind,
        Option.bind_some]
      rfl

theorem scanUnsigned_sound {s literal rest : List Char} (h : scanUnsigned s = some (literal, rest)) :
    IsUnsigned literal ∧ s = literal ++ rest := by
  simp only [scanUnsigned, Option.bind_eq_bind, Option.bind_eq_some_iff, Prod.exists] at h
  obtain ⟨integer, s₁, h₁, fraction, s₂, h₂, exponent, s₃, h₃, h⟩ := h
  obtain ⟨hinteger, rfl⟩ := scanInteger_sound h₁
  obtain ⟨hfraction, rfl⟩ := scanFraction_sound h₂
  obtain ⟨hexponent, rfl⟩ := scanExponent_sound h₃
  cases h
  exact ⟨.mk hinteger hfraction hexponent, by simp only [List.append_assoc]⟩

theorem IsUnsigned.exists_cons {s : List Char} (h : IsUnsigned s) : ∃ d tail, isDigit d = true ∧ s = d :: tail := by
  cases h with
  | @mk integer fraction exponent hinteger _ _ =>
      cases integer with
      | nil => exact absurd rfl hinteger.1.1
      | cons d ds => exact ⟨d, _, hinteger.1.2 d List.mem_cons_self, rfl⟩

theorem scanNumber_append {s rest : List Char} (h : IsNumber s) (hrest : EndsNumber rest) :
    scanNumber (s ++ rest) = some (s, rest) := by
  cases h with
  | unsigned h =>
      obtain ⟨d, tail, hd, rfl⟩ := h.exists_cons
      have hscan := scanUnsigned_append h hrest
      rw [List.cons_append] at hscan ⊢
      rw [scanNumber, hscan]
      intro _ heq
      cases heq
      cases hd
  | negative h =>
      rw [List.cons_append, scanNumber, scanUnsigned_append h hrest]
      rfl

theorem scanNumber_sound {s literal rest : List Char} (h : scanNumber s = some (literal, rest)) :
    IsNumber literal ∧ s = literal ++ rest := by
  unfold scanNumber at h
  split at h
  · obtain ⟨⟨literal', rest'⟩, hp, he⟩ := Option.map_eq_some_iff.mp h
    obtain ⟨hliteral, rfl⟩ := scanUnsigned_sound hp
    cases he
    exact ⟨.negative hliteral, rfl⟩
  · obtain ⟨hliteral, rfl⟩ := scanUnsigned_sound h
    exact ⟨.unsigned hliteral, rfl⟩

/-! ## All tokens -/

theorem IsNumber.exists_cons {s : List Char} (h : IsNumber s) :
    ∃ c tail, (isDigit c = true ∨ c = '-') ∧ s = c :: tail := by
  cases h with
  | unsigned h =>
      obtain ⟨d, tail, hd, rfl⟩ := h.exists_cons
      exact ⟨d, tail, .inl hd, rfl⟩
  | negative h => exact ⟨'-', _, .inr rfl, rfl⟩

/-- A digit or a minus sign starts no token but a number. -/
theorem scanToken_eq_scanNumber {c : Char} (hc : isDigit c = true ∨ c = '-') (s : List Char) :
    scanToken (c :: s) = (scanNumber (c :: s)).map fun p => (.number p.1, p.2) := by
  rw [scanToken]
  all_goals
    intro _ heq
    cases heq
    revert hc
    decide

theorem scanToken_text {t : Token} (ht : t.WellFormed) {rest : List Char}
    (hrest : ∀ literal, t = .number literal → EndsNumber rest) : scanToken (t.text ++ rest) = some (t, rest) := by
  cases t with
  | bool b => cases b <;> rfl
  | number literal =>
      have hscan := scanNumber_append ht (hrest literal rfl)
      obtain ⟨c, tail, hc, rfl⟩ := IsNumber.exists_cons ht
      rw [Token.text]
      rw [List.cons_append] at hscan ⊢
      rw [scanToken_eq_scanNumber hc, hscan]
      rfl
  | string content =>
      have htext : (Token.string content).text ++ rest = '"' :: (content ++ '"' :: rest) := by simp [Token.text]
      rw [htext, scanToken, scanString_content ht]
      rfl
  | _ => rfl

theorem scanToken_sound {s rest : List Char} {t : Token} (h : scanToken s = some (t, rest)) :
    t.WellFormed ∧ s = t.text ++ rest := by
  unfold scanToken at h
  split at h
  case h_10 =>
    obtain ⟨⟨content, rest'⟩, hp, he⟩ := Option.map_eq_some_iff.mp h
    obtain ⟨hcontent, rfl⟩ := scanString_sound hp
    cases he
    exact ⟨hcontent, by simp [Token.text]⟩
  case h_11 =>
    obtain ⟨⟨literal, rest'⟩, hp, he⟩ := Option.map_eq_some_iff.mp h
    cases he
    exact scanNumber_sound hp
  all_goals
    cases h
    exact ⟨trivial, rfl⟩

end PacketHost.Json
