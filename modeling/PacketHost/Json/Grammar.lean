import PacketHost.Json.Value

/-!
# The JSON grammar

Which texts are JSON, without a word on how they are read. `Writes s v` says that `s` is a text of the value `v`: its
tokens one after the other, with any blanks around them. A value keeps strings and numbers as they are written, so
`Spells` says which text the content of a string stands for.
-/

namespace PacketHost.Json

/-! ## Strings -/

/-- What may stand between the quotes of a string. -/
inductive IsContent : List Char → Prop where
  | nil : IsContent []
  | plain {c : Char} {content : List Char} (hquote : c ≠ '"') (hslash : c ≠ '\\') (hcontrol : 0x20 ≤ c.toNat)
      (h : IsContent content) : IsContent (c :: content)
  | escape {e c : Char} {content : List Char} (he : simpleEscape? e = some c) (h : IsContent content) :
      IsContent ('\\' :: e :: content)
  | hexadecimal {a b c d : Char} {word : Nat} {content : List Char} (hword : hexWord? a b c d = some word)
      (h : IsContent content) : IsContent ('\\' :: 'u' :: a :: b :: c :: d :: content)

/-- The content of a string stands for a text. A character beyond the basic plane may be given by two halves. -/
inductive Spells : List Char → List Char → Prop where
  | nil : Spells [] []
  | plain {c : Char} {content text : List Char} (hquote : c ≠ '"') (hslash : c ≠ '\\') (hcontrol : 0x20 ≤ c.toNat)
      (h : Spells content text) : Spells (c :: content) (c :: text)
  | escape {e c : Char} {content text : List Char} (he : simpleEscape? e = some c) (h : Spells content text) :
      Spells ('\\' :: e :: content) (c :: text)
  | hexadecimal {a b c d : Char} {word : Nat} {content text : List Char} (hword : hexWord? a b c d = some word)
      (hwhole : word < 0xD800 ∨ 0xE000 ≤ word) (h : Spells content text) :
      Spells ('\\' :: 'u' :: a :: b :: c :: d :: content) (Char.ofNat word :: text)
  | halves {a b c d a' b' c' d' : Char} {high low : Nat} {content text : List Char}
      (hhigh : hexWord? a b c d = some high) (hhigh' : 0xD800 ≤ high ∧ high < 0xDC00)
      (hlow : hexWord? a' b' c' d' = some low) (hlow' : 0xDC00 ≤ low ∧ low < 0xE000) (h : Spells content text) :
      Spells ('\\' :: 'u' :: a :: b :: c :: d :: '\\' :: 'u' :: a' :: b' :: c' :: d' :: content)
        (Char.ofNat (0x10000 + (high - 0xD800) * 0x400 + (low - 0xDC00)) :: text)

/-! ## Numbers -/

def IsDigits (s : List Char) : Prop := s ≠ [] ∧ ∀ c ∈ s, isDigit c = true

/-- The digits before the point; only a single zero starts with a zero. -/
def IsInteger (s : List Char) : Prop := IsDigits s ∧ (s.head? = some '0' → s = ['0'])

inductive IsFraction : List Char → Prop where
  | none : IsFraction []
  | some {ds : List Char} (h : IsDigits ds) : IsFraction ('.' :: ds)

inductive IsSign : List Char → Prop where
  | none : IsSign []
  | plus : IsSign ['+']
  | minus : IsSign ['-']

inductive IsExponent : List Char → Prop where
  | none : IsExponent []
  | some {e : Char} {sign ds : List Char} (he : e = 'e' ∨ e = 'E') (hsign : IsSign sign) (h : IsDigits ds) :
      IsExponent (e :: (sign ++ ds))

inductive IsUnsigned : List Char → Prop where
  | mk {integer fraction exponent : List Char} (hinteger : IsInteger integer) (hfraction : IsFraction fraction)
      (hexponent : IsExponent exponent) : IsUnsigned (integer ++ (fraction ++ exponent))

inductive IsNumber : List Char → Prop where
  | unsigned {s : List Char} (h : IsUnsigned s) : IsNumber s
  | negative {s : List Char} (h : IsUnsigned s) : IsNumber ('-' :: s)

/-! ## Texts -/

/-- The form of numbers and strings; all other tokens have only one form. -/
def Token.WellFormed : Token → Prop
  | .number literal => IsNumber literal
  | .string content => IsContent content
  | _ => True

/-- A text consists of these tokens, with any blanks before, between and after them. -/
inductive Spaced : List Char → List Token → Prop where
  | nil : Spaced [] []
  | blank {c : Char} {s : List Char} {ts : List Token} (hc : isBlank c = true) (h : Spaced s ts) : Spaced (c :: s) ts
  | token {t : Token} {s : List Char} {ts : List Token} (ht : t.WellFormed) (h : Spaced s ts) :
      Spaced (t.text ++ s) (t :: ts)

/-- A text is one of the JSON texts of a value. -/
def Writes (s : List Char) (v : Value) : Prop := Spaced s v.tokens

/-- The same members, with names as they are written and as the texts that they stand for. -/
inductive SpellsNames : List (List Char × Value) → List (List Char × Value) → Prop where
  | nil : SpellsNames [] []
  | cons {content name : List Char} {v : Value} {raw members : List (List Char × Value)}
      (hname : Spells content name) (h : SpellsNames raw members) :
      SpellsNames ((content, v) :: raw) ((name, v) :: members)

/-- A text is a JSON text of an object with these members, whose names are given as the texts that they stand for. -/
def WritesObject (s : List Char) (members : List (List Char × Value)) : Prop :=
  ∃ raw, Writes s (.object raw) ∧ SpellsNames raw members

end PacketHost.Json
