import PacketHost.Json.Decimal

/-!
# The tokens of a JSON text

A JSON text is a sequence of tokens with blanks between them. The content of a string is kept as it is
written, escapes included, and so is a number. `scanToken` takes a token off a text and leaves a shorter
one (`scanToken_length`).
-/

namespace PacketHost.Json

/-- The smallest parts of a JSON text. -/
inductive Token where
  | openObject
  | closeObject
  | openArray
  | closeArray
  | colon
  | comma
  | null
  | bool (value : Bool)
  | number (literal : List Char)
  | string (content : List Char)
  deriving DecidableEq, Repr

def Token.text : Token → List Char
  | openObject => ['\x7b']
  | closeObject => ['\x7d']
  | openArray => ['[']
  | closeArray => [']']
  | colon => [':']
  | comma => [',']
  | null => ['n', 'u', 'l', 'l']
  | bool true => ['t', 'r', 'u', 'e']
  | bool false => ['f', 'a', 'l', 's', 'e']
  | number literal => literal
  | string content => '"' :: (content ++ ['"'])

/-- Characters that may stand between tokens. -/
def isBlank (c : Char) : Bool := c == ' ' || c == '\t' || c == '\n' || c == '\r'

/-! ## Strings -/

def hexValue? (c : Char) : Option Nat :=
  if isDigit c then some (c.toNat - '0'.toNat)
  else if 'a' ≤ c ∧ c ≤ 'f' then some (c.toNat - 'a'.toNat + 10)
  else if 'A' ≤ c ∧ c ≤ 'F' then some (c.toNat - 'A'.toNat + 10)
  else none

def hexWord? (a b c d : Char) : Option Nat := do
  return (((← hexValue? a) * 16 + (← hexValue? b)) * 16 + (← hexValue? c)) * 16 + (← hexValue? d)

def simpleEscape? : Char → Option Char
  | '"' => some '"'
  | '\\' => some '\\'
  | '/' => some '/'
  | 'b' => some '\x08'
  | 'f' => some '\x0c'
  | 'n' => some '\n'
  | 'r' => some '\r'
  | 't' => some '\t'
  | _ => none

/-- Takes the content of a string and its closing quote off a text; escapes are checked for form alone. -/
def scanString : List Char → Option (List Char × List Char)
  | [] => none
  | '"' :: rest => some ([], rest)
  | '\\' :: 'u' :: a :: b :: c :: d :: rest =>
    if (hexWord? a b c d).isSome then
      (scanString rest).map fun p => ('\\' :: 'u' :: a :: b :: c :: d :: p.1, p.2)
    else none
  | '\\' :: e :: rest =>
    if (simpleEscape? e).isSome then (scanString rest).map fun p => ('\\' :: e :: p.1, p.2) else none
  | c :: rest =>
    if c = '\\' ∨ c.toNat < 0x20 then none else (scanString rest).map fun p => (c :: p.1, p.2)

/-- The text that the content of a string stands for; a half of a surrogate pair on its own stands for none. -/
def decodeString? : List Char → Option (List Char)
  | [] => some []
  | '\\' :: 'u' :: a :: b :: c :: d :: rest =>
    match hexWord? a b c d with
    | none => none
    | some high =>
      if 0xD800 ≤ high ∧ high < 0xDC00 then
        match rest with
        | '\\' :: 'u' :: a' :: b' :: c' :: d' :: rest =>
          match hexWord? a' b' c' d' with
          | none => none
          | some low =>
            if 0xDC00 ≤ low ∧ low < 0xE000 then
              (decodeString? rest).map
                (Char.ofNat (0x10000 + (high - 0xD800) * 0x400 + (low - 0xDC00)) :: ·)
            else none
        | _ => none
      else if 0xDC00 ≤ high ∧ high < 0xE000 then none
      else (decodeString? rest).map (Char.ofNat high :: ·)
  | '\\' :: e :: rest =>
    match simpleEscape? e with
    | some c => (decodeString? rest).map (c :: ·)
    | none => none
  | c :: rest => if c = '\\' then none else (decodeString? rest).map (c :: ·)

/-! ## Numbers -/

/-- Takes the digits off a text; there must be one. -/
def scanDigits (s : List Char) : Option (List Char × List Char) :=
  match s.takeWhile isDigit with
  | [] => none
  | d :: ds => some (d :: ds, s.dropWhile isDigit)

/-- Takes the digits before the point off a text; only a single zero starts with a zero. -/
def scanInteger (s : List Char) : Option (List Char × List Char) :=
  match scanDigits s with
  | some ('0' :: _ :: _, _) => none
  | found => found

/-- Takes a point and the digits after it off a text, if there is a point. -/
def scanFraction : List Char → Option (List Char × List Char)
  | '.' :: rest => (scanDigits rest).map fun p => ('.' :: p.1, p.2)
  | s => some ([], s)

/-- Takes the sign of an exponent off a text, if there is one. -/
def scanSign : List Char → List Char × List Char
  | '+' :: rest => (['+'], rest)
  | '-' :: rest => (['-'], rest)
  | s => ([], s)

def scanExponent : List Char → Option (List Char × List Char)
  | c :: rest =>
    if c = 'e' ∨ c = 'E' then
      let (sign, rest) := scanSign rest
      (scanDigits rest).map fun p => (c :: (sign ++ p.1), p.2)
    else some ([], c :: rest)
  | [] => some ([], [])

def scanUnsigned (s : List Char) : Option (List Char × List Char) := do
  let (integer, s) ← scanInteger s
  let (fraction, s) ← scanFraction s
  let (exponent, s) ← scanExponent s
  return (integer ++ (fraction ++ exponent), s)

def scanNumber : List Char → Option (List Char × List Char)
  | '-' :: rest => (scanUnsigned rest).map fun p => ('-' :: p.1, p.2)
  | s => scanUnsigned s

/-! ## All tokens -/

/-- Takes a token off a text that does not start with a blank. -/
def scanToken : List Char → Option (Token × List Char)
  | '\x7b' :: rest => some (.openObject, rest)
  | '\x7d' :: rest => some (.closeObject, rest)
  | '[' :: rest => some (.openArray, rest)
  | ']' :: rest => some (.closeArray, rest)
  | ':' :: rest => some (.colon, rest)
  | ',' :: rest => some (.comma, rest)
  | 'n' :: 'u' :: 'l' :: 'l' :: rest => some (.null, rest)
  | 't' :: 'r' :: 'u' :: 'e' :: rest => some (.bool true, rest)
  | 'f' :: 'a' :: 'l' :: 's' :: 'e' :: rest => some (.bool false, rest)
  | '"' :: rest => (scanString rest).map fun p => (.string p.1, p.2)
  | s => (scanNumber s).map fun p => (.number p.1, p.2)

/-! ## Scanning shortens a text -/

theorem scanString_length {s content rest : List Char} (h : scanString s = some (content, rest)) :
    rest.length < s.length := by
  fun_induction scanString s generalizing content rest with
  | case1 => simp at h
  | case2 => simp at h; simp [h.2]
  | case3 a b c d tail hx ih =>
    obtain ⟨⟨p, q⟩, hp, he⟩ := Option.map_eq_some_iff.1 h
    have := ih hp
    simp at he
    simp only [← he.2, List.length_cons]
    omega
  | case4 => simp at h
  | case5 e tail _ hx ih =>
    obtain ⟨⟨p, q⟩, hp, he⟩ := Option.map_eq_some_iff.1 h
    have := ih hp
    simp at he
    simp only [← he.2, List.length_cons]
    omega
  | case6 => simp at h
  | case7 => simp at h
  | case8 c tail _ _ _ hc ih =>
    obtain ⟨⟨p, q⟩, hp, he⟩ := Option.map_eq_some_iff.1 h
    have := ih hp
    simp at he
    simp only [← he.2, List.length_cons]
    omega

theorem scanDigits_length {s ds rest : List Char} (h : scanDigits s = some (ds, rest)) :
    rest.length < s.length := by
  simp only [scanDigits] at h
  split at h
  · simp at h
  · rename_i d ds' hd
    simp only [Option.some.injEq, Prod.mk.injEq] at h
    have hlen := congrArg List.length (List.takeWhile_append_dropWhile (p := isDigit) (l := s))
    rw [List.length_append, hd, h.2] at hlen
    simp at hlen
    omega

theorem scanInteger_length {s ds rest : List Char} (h : scanInteger s = some (ds, rest)) :
    rest.length < s.length := by
  simp only [scanInteger] at h
  split at h
  · simp at h
  · exact scanDigits_length h

theorem scanFraction_length {s ds rest : List Char} (h : scanFraction s = some (ds, rest)) :
    rest.length ≤ s.length := by
  simp only [scanFraction] at h
  split at h
  · obtain ⟨⟨p, q⟩, hp, he⟩ := Option.map_eq_some_iff.1 h
    have := scanDigits_length hp
    simp at he
    simp only [← he.2, List.length_cons]
    omega
  · simp at h
    simp [h.2]

theorem scanSign_length (s : List Char) : (scanSign s).2.length ≤ s.length := by
  simp only [scanSign]
  split <;> simp

theorem scanExponent_length {s ds rest : List Char} (h : scanExponent s = some (ds, rest)) :
    rest.length ≤ s.length := by
  simp only [scanExponent] at h
  split at h
  · rename_i c tail
    split at h
    · obtain ⟨⟨p, q⟩, hp, he⟩ := Option.map_eq_some_iff.1 h
      have := scanDigits_length hp
      have := scanSign_length tail
      simp at he
      simp only [← he.2, List.length_cons]
      omega
    · simp at h
      simp [h.2]
  · simp at h
    simp [h.2]

theorem scanUnsigned_length {s ds rest : List Char} (h : scanUnsigned s = some (ds, rest)) :
    rest.length < s.length := by
  simp only [scanUnsigned, Option.bind_eq_bind, Option.bind_eq_some_iff, Prod.exists] at h
  obtain ⟨i, s₁, h₁, f, s₂, h₂, e, s₃, h₃, h⟩ := h
  simp at h
  have := scanInteger_length h₁
  have := scanFraction_length h₂
  have := scanExponent_length h₃
  rw [← h.2]
  omega

theorem scanNumber_length {s ds rest : List Char} (h : scanNumber s = some (ds, rest)) :
    rest.length < s.length := by
  simp only [scanNumber] at h
  split at h
  · obtain ⟨⟨p, q⟩, hp, he⟩ := Option.map_eq_some_iff.1 h
    have := scanUnsigned_length hp
    simp at he
    simp only [← he.2, List.length_cons]
    omega
  · exact scanUnsigned_length h

theorem scanToken_length {s rest : List Char} {t : Token} (h : scanToken s = some (t, rest)) :
    rest.length < s.length := by
  unfold scanToken at h
  split at h
  case h_10 =>
    obtain ⟨⟨p, q⟩, hp, he⟩ := Option.map_eq_some_iff.1 h
    have := scanString_length hp
    cases he
    simp only [List.length_cons]
    omega
  case h_11 =>
    obtain ⟨⟨p, q⟩, hp, he⟩ := Option.map_eq_some_iff.1 h
    cases he
    exact scanNumber_length hp
  all_goals
    cases h
    simp only [List.length_cons]
    omega

end PacketHost.Json
