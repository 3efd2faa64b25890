import PacketHost.Text.Hidden

/-!
# Quoted text

`quoted` writes a text between double quotes. Quotes, backslashes and the usual control characters get a
backslash, and other characters that have no shape of their own are written by their number.
-/

namespace PacketHost.Text

/-- The lower-case hexadecimal digits of a number. -/
def hex (n : Nat) : String := String.ofList (Nat.toDigits 16 n)

def isShown (c : Char) : Bool := 0x20 ≤ c.toNat && c.toNat ≠ 0x7f && !isHidden c

/-- A character as it is written between quotes. -/
def escape (c : Char) : String :=
  if c = '"' then "\\\""
  else if c = '\\' then "\\\\"
  else if c = '\n' then "\\n"
  else if c = '\r' then "\\r"
  else if c = '\t' then "\\t"
  else if c.toNat = 0 then "\\0"
  else if isShown c then c.toString
  else "\\u\x7b" ++ hex c.toNat ++ "\x7d"

def quoted (s : String) : String := "\"" ++ String.join (s.toList.map escape) ++ "\""

end PacketHost.Text
