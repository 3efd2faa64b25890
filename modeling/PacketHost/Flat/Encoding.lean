import PacketHost.Header

/-!
# The packed form of a packet

`encode` states which bytes a packet is: the number of headers, the absolute position at which each key
and value starts, the position at which the payload starts, and then keys, values and payload in order.
All words are stored with the least significant byte first. Lengths are not stored: each piece ends
where the next one starts.
-/

namespace PacketHost.Flat

/-- Keys and values in the order in which they are stored. -/
def pieces (headers : List Header) : List Bytes :=
  headers.flatMap fun h => [h.key, h.val]

/-- The position at which each piece starts, and the position after the last one. -/
def positions (start : Nat) : List Bytes → List Nat
  | [] => [start]
  | p :: ps => start :: positions (start + p.size) ps

def tableWords (headers : List Header) : List Nat :=
  headers.length :: positions (2 * Word.width * (headers.length + 1)) (pieces headers)

def encodeWords (words : List Nat) : List UInt8 := words.flatMap Word.encode

def encode (headers : List Header) (payload : Bytes) : Bytes :=
  (encodeWords (tableWords headers)).toArray ++ ((pieces headers).toArray.flatten ++ payload)

@[simp] theorem length_pieces (headers : List Header) :
    (pieces headers).length = 2 * headers.length := by
  induction headers with
  | nil => rfl
  | cons h hs ih => simp [pieces] at ih ⊢; omega

@[simp] theorem length_positions (start : Nat) (ps : List Bytes) :
    (positions start ps).length = ps.length + 1 := by
  induction ps generalizing start with
  | nil => rfl
  | cons p ps ih => simp [positions, ih]

@[simp] theorem length_encodeWords (words : List Nat) :
    (encodeWords words).length = Word.width * words.length := by
  induction words with
  | nil => rfl
  | cons w ws ih => simp [encodeWords, Nat.mul_add] at ih ⊢; omega

end PacketHost.Flat
