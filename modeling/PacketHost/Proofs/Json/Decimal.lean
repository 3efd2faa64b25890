import Mathlib
import PacketHost.Json.Grammar

/-!
# Whole numbers

The JSON texts of whole numbers without a sign are the decimal numbers: each number has exactly one, `decimal n`
(`natural?_eq_some_iff`).
-/

namespace PacketHost.Json

theorem digitValue_digitChar {d : Nat} (h : d < 10) : digitValue (digitChar d) = d := by
  revert d
  decide

theorem digitChar_eq {d : Nat} (h : d < 10) : digitChar d = Nat.digitChar d := by
  revert d
  decide

theorem isDigit_digitChar {d : Nat} (h : d < 10) : isDigit (digitChar d) = true := by
  revert d
  decide

theorem toNat_of_isDigit {c : Char} (h : isDigit c = true) : 48 ≤ c.toNat ∧ c.toNat ≤ 57 := by
  simpa [isDigit, Char.le_def, UInt32.le_iff_toNat_le] using h

theorem digitValue_lt {c : Char} (h : isDigit c = true) : digitValue c < 10 := by
  have hc := toNat_of_isDigit h
  have hzero : '0'.toNat = 48 := rfl
  unfold digitValue
  omega

theorem digitChar_digitValue {c : Char} (h : isDigit c = true) : digitChar (digitValue c) = c := by
  have hc := toNat_of_isDigit h
  have hzero : '0'.toNat = 48 := rfl
  have hsum : '0'.toNat + digitValue c = c.toNat := by
    unfold digitValue
    omega
  rw [digitChar, hsum, Char.ofNat_toNat]

theorem ofDigits_concat (ds : List Char) (d : Char) : ofDigits (ds ++ [d]) = 10 * ofDigits ds + digitValue d := by
  rw [ofDigits, List.foldl_append]
  rfl

theorem ofDigits_decimal (n : Nat) : ofDigits (decimal n) = n := by
  fun_induction decimal n with
  | case1 n h =>
      have hone := ofDigits_concat [] (digitChar n)
      rw [digitValue_digitChar h] at hone
      exact hone.trans (Nat.zero_add n)
  | case2 n h ih =>
      rw [ofDigits_concat, ih, digitValue_digitChar (Nat.mod_lt n (by decide))]
      omega

theorem isDigits_decimal (n : Nat) : IsDigits (decimal n) := by
  fun_induction decimal n with
  | case1 n h => exact ⟨List.cons_ne_nil _ _, by simpa using isDigit_digitChar h⟩
  | case2 n h ih =>
      refine ⟨List.append_ne_nil_of_right_ne_nil _ (List.cons_ne_nil _ _), fun c hc => ?_⟩
      rcases List.mem_append.mp hc with hc | hc
      · exact ih.2 c hc
      · rw [List.mem_singleton.mp hc]
        exact isDigit_digitChar (Nat.mod_lt n (by decide))

theorem decimal_zero : decimal 0 = ['0'] := by
  rw [decimal, if_pos (by decide)]
  rfl

theorem isInteger_decimal (n : Nat) : IsInteger (decimal n) := by
  refine ⟨isDigits_decimal n, ?_⟩
  fun_induction decimal n with
  | case1 n h =>
      intro hhead
      rw [List.singleton_inj]
      exact Option.some.inj hhead
  | case2 n h ih =>
      intro hhead
      rw [List.head?_append_of_ne_nil _ (isDigits_decimal (n / 10)).1] at hhead
      -- A zero in front is the whole of the digits before the last one, but there are more than ten units.
      have hzero := ofDigits_decimal (n / 10)
      rw [ih hhead] at hzero
      have : n / 10 = 0 := hzero.symm
      omega

/-- What stands before the last digit of a number is a number of its own, and not zero. -/
theorem IsInteger.of_concat {ds : List Char} {d : Char} (h : IsInteger (ds ++ [d])) (hne : ds ≠ []) :
    IsInteger ds ∧ ds ≠ ['0'] := by
  have hhead : ds.head? ≠ some '0' := by
    intro hzero
    have hwhole := h.2 (by rwa [List.head?_append_of_ne_nil _ hne])
    exact hne (by simpa using congrArg List.length hwhole)
  exact ⟨⟨⟨hne, fun c hc => h.1.2 c (List.mem_append_left _ hc)⟩, fun hzero => absurd hzero hhead⟩,
    fun hzero => hhead (hzero ▸ rfl)⟩

/-- The induction is on the digits from the last one on. -/
theorem decimal_ofDigits {ds : List Char} (h : IsInteger ds) : decimal (ofDigits ds) = ds := by
  induction ds using List.reverseRecOn with
  | nil => exact absurd rfl h.1.1
  | append_singleton ds d ih =>
      have hd : isDigit d = true := h.1.2 d (List.mem_append_right _ List.mem_cons_self)
      have hlt := digitValue_lt hd
      rw [ofDigits_concat]
      by_cases hne : ds = []
      · subst hne
        have hzero : 10 * ofDigits [] + digitValue d = digitValue d := Nat.zero_add _
        rw [hzero, decimal, if_pos hlt, digitChar_digitValue hd]
        rfl
      · obtain ⟨hds, hzero⟩ := h.of_concat hne
        have hpos : ofDigits ds ≠ 0 := fun heq => hzero (by rw [← ih hds, heq, decimal_zero])
        have hdiv : (10 * ofDigits ds + digitValue d) / 10 = ofDigits ds := by omega
        have hmod : (10 * ofDigits ds + digitValue d) % 10 = digitValue d := by omega
        rw [decimal, if_neg (by omega), hdiv, hmod, ih hds, digitChar_digitValue hd]

theorem decimal_eq_toDigits (n : Nat) : decimal n = Nat.toDigits 10 n := by
  fun_induction decimal n with
  | case1 n h => rw [Nat.toDigits_of_lt_base h, digitChar_eq h]
  | case2 n h ih =>
      rw [Nat.toDigits_of_base_le (by decide) (Nat.not_lt.mp h), ih, digitChar_eq (Nat.mod_lt n (by decide))]

theorem decimal_injective : Function.Injective decimal := Function.LeftInverse.injective ofDigits_decimal

/-- A number of which each character is a digit has no sign, no fraction and no exponent. -/
theorem IsNumber.isInteger {literal : List Char} (h : IsNumber literal) (hdigits : ∀ c ∈ literal, isDigit c = true) :
    IsInteger literal := by
  cases h with
  | negative h => exact absurd (hdigits '-' List.mem_cons_self) (by decide)
  | unsigned h =>
      cases h with
      | @mk integer fraction exponent hinteger hfraction hexponent =>
          have hrest : ∀ c ∈ fraction ++ exponent, isDigit c = true := fun c hc =>
            hdigits c (List.mem_append_right integer hc)
          cases hfraction with
          | some h => exact absurd (hrest '.' List.mem_cons_self) (by decide)
          | none =>
              cases hexponent with
              | none => rwa [List.append_nil, List.append_nil]
              | @some e sign ds he hsign h =>
                  have hletter : isDigit e = true := hrest e List.mem_cons_self
                  rcases he with rfl | rfl
                  all_goals cases hletter

/-- A number literal that is written with digits alone is the decimal number that it is read as. -/
theorem natural?_eq_some_iff {literal : List Char} (h : IsNumber literal) {n : Nat} :
    (Value.number literal).natural? = some n ↔ literal = decimal n := by
  simp only [Value.natural?, Option.ite_none_right_eq_some, Option.some.injEq, List.all_eq_true]
  constructor
  · rintro ⟨hdigits, rfl⟩
    exact (decimal_ofDigits (h.isInteger hdigits)).symm
  · rintro rfl
    exact ⟨(isDigits_decimal n).2, ofDigits_decimal n⟩

theorem isNumber_decimal (n : Nat) : IsNumber (decimal n) := by
  have hunsigned := IsUnsigned.mk (isInteger_decimal n) .none .none
  rw [List.append_nil, List.append_nil] at hunsigned
  exact .unsigned hunsigned

end PacketHost.Json
