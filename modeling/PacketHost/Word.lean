/-!
# Machine words

A machine word is a natural number below `Word.limit`. Sums and products that leave this range are
refused by `Word.add?` and `Word.mul?`, and a word is stored as eight bytes, the least significant first.
-/

namespace PacketHost.Word

def width : Nat := 8

/-- The smallest number that is not a word, two to the power of 64. -/
def limit : Nat := 18446744073709551616

def largest : Nat := limit - 1

/-! ## Arithmetic -/

/-- The sum, if it is a word. -/
def add? (a b : Nat) : Option Nat := if a + b < limit then some (a + b) else none

def mul? (a b : Nat) : Option Nat := if a * b < limit then some (a * b) else none

/-- The word that a number wraps around to. -/
def wrap (n : Nat) : Nat := n % limit

theorem add?_eq_some_iff {a b s : Nat} : add? a b = some s ↔ a + b = s ∧ s < limit := by
  simp only [add?, Option.ite_none_right_eq_some, Option.some.injEq]
  constructor
  · rintro ⟨h, rfl⟩
    exact ⟨rfl, h⟩
  · rintro ⟨rfl, h⟩
    exact ⟨h, rfl⟩

/-! ## Bytes -/

/-- The lowest `count` base-256 digits of a number, the least significant first. -/
def digits : Nat → Nat → List UInt8
  | 0, _ => []
  | count + 1, n => UInt8.ofNat (n % 256) :: digits count (n / 256)

/-- The number with the given base-256 digits, the least significant first. -/
def ofDigits : List UInt8 → Nat
  | [] => 0
  | d :: ds => d.toNat + 256 * ofDigits ds

def encode (w : Nat) : List UInt8 := digits width w

@[simp] theorem length_digits (count n : Nat) : (digits count n).length = count := by
  induction count generalizing n with
  | zero => rfl
  | succ count ih => simp [digits, ih]

@[simp] theorem length_encode (w : Nat) : (encode w).length = width := length_digits width w

end PacketHost.Word
