import PacketHost.Json.Token

/-!
# JSON values

A `Value` is the tree that a JSON text describes; the members of an object keep their order, and names may
repeat. `Value.tokens` writes it as tokens and `Value.print` as a text without blanks.
-/

namespace PacketHost.Json

/-- The tree that a JSON text describes, with numbers and strings as they are written. -/
inductive Value where
  | null
  | bool (value : Bool)
  | number (literal : List Char)
  | string (content : List Char)
  | array (elements : List Value)
  | object (members : List (List Char × Value))

namespace Value

mutual
def tokens : Value → List Token
  | null => [.null]
  | bool b => [.bool b]
  | number literal => [.number literal]
  | string content => [.string content]
  | array elements => .openArray :: elementTokens elements
  | object members => .openObject :: memberTokens members

/-- The tokens of the elements of an array, and the end of the array. -/
def elementTokens : List Value → List Token
  | [] => [.closeArray]
  | [v] => v.tokens ++ [.closeArray]
  | v :: vs => v.tokens ++ .comma :: elementTokens vs

/-- The tokens of the members of an object, and the end of the object. -/
def memberTokens : List (List Char × Value) → List Token
  | [] => [.closeObject]
  | [(k, v)] => .string k :: .colon :: (v.tokens ++ [.closeObject])
  | (k, v) :: ms => .string k :: .colon :: (v.tokens ++ .comma :: memberTokens ms)
end

def print (v : Value) : List Char := v.tokens.flatMap Token.text

/-- The number that a value is, if it is written with digits alone. -/
def natural? : Value → Option Nat
  | number literal => if literal.all isDigit then some (ofDigits literal) else none
  | _ => none

def ofNat (n : Nat) : Value := number (decimal n)

end Value

end PacketHost.Json
