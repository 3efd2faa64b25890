/-!
# Decimal numbers

`decimal` writes a number with its decimal digits, and `ofDigits` reads digits back.
-/

namespace PacketHost.Json

def digitValue (c : Char) : Nat := c.toNat - '0'.toNat

def digitChar (d : Nat) : Char := Char.ofNat ('0'.toNat + d)

def isDigit (c : Char) : Bool := '0' ≤ c && c ≤ '9'

/-- The decimal digits of a number, without leading zeros. -/
def decimal (n : Nat) : List Char :=
  if n < 10 then [digitChar n] else decimal (n / 10) ++ [digitChar (n % 10)]

def ofDigits (ds : List Char) : Nat := ds.foldl (fun n c => 10 * n + digitValue c) 0

end PacketHost.Json
