import Mathlib
import PacketHost.Word

/-!
# Words and their bytes

A word that was stored is read back, and bytes that were read as a word are stored again as they were.
-/

namespace PacketHost.Word

theorem lt_limit_iff {n : Nat} : n < limit ↔ n ≤ 2 ^ 64 - 1 := by
  unfold limit
  omega

theorem ofDigits_digits {count n : Nat} (h : n < 256 ^ count) : ofDigits (digits count n) = n := by
  induction count generalizing n with
  | zero =>
      obtain rfl : n = 0 := by simpa using h
      rfl
  | succ count ih =>
      have hdiv : n / 256 < 256 ^ count := by
        apply Nat.div_lt_of_lt_mul
        rw [Nat.mul_comm, ← Nat.pow_succ]
        exact h
      have hmod : (UInt8.ofNat (n % 256)).toNat = n % 256 := by simp
      rw [digits, ofDigits, ih hdiv, hmod]
      omega

theorem digits_ofDigits (ds : List UInt8) : digits ds.length (ofDigits ds) = ds := by
  induction ds with
  | nil => rfl
  | cons d ds ih =>
      have hd : d.toNat < 256 := d.toNat_lt
      have hmod : (d.toNat + 256 * ofDigits ds) % 256 = d.toNat := by omega
      have hdiv : (d.toNat + 256 * ofDigits ds) / 256 = ofDigits ds := by omega
      simp [digits, ofDigits, hmod, hdiv, ih]

theorem ofDigits_lt (ds : List UInt8) : ofDigits ds < 256 ^ ds.length := by
  induction ds with
  | nil => simp [ofDigits]
  | cons d ds ih =>
      have hd : d.toNat < 256 := d.toNat_lt
      rw [ofDigits, List.length_cons, Nat.pow_succ]
      omega

theorem ofDigits_encode {w : Nat} (h : w < limit) : ofDigits (encode w) = w :=
  ofDigits_digits (Nat.lt_of_lt_of_eq h (by decide))

theorem encode_ofDigits {ds : List UInt8} (h : ds.length = width) : encode (ofDigits ds) = ds := by
  rw [encode, ← h, digits_ofDigits]

/-- The digits of a number, each on its own. -/
theorem digits_eq_map (count n : Nat) :
    digits count n = (List.range count).map fun i => UInt8.ofNat (n / 256 ^ i % 256) := by
  induction count generalizing n with
  | zero => rfl
  | succ count ih =>
      rw [digits, ih, List.range_succ_eq_map, List.map_cons, List.map_map, pow_zero, Nat.div_one]
      congr 1
      refine List.map_congr_left fun i _ => ?_
      rw [Function.comp_apply, Nat.succ_eq_add_one, pow_succ', Nat.div_div_eq_div_mul]

end PacketHost.Word
