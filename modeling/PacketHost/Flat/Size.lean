import PacketHost.Header
import PacketHost.Status

/-!
# The size of a packed packet

A packed packet starts with its offset table: one word for the number of headers, two words for each
header and one word for the payload. Keys, values and payload follow. `sizeFor` adds all this up in
words and refuses as soon as a sum is no word, so it needs only the lengths of the pieces.
-/

namespace PacketHost.Flat

/-- The number of bytes in the offset table of `count` headers, if it is a word. -/
def tableLength? (count : Nat) : Option Nat := do
  let entries ← Word.mul? count (2 * Word.width)
  Word.add? entries (2 * Word.width)

def addPair? (size : Nat) (pair : Nat × Nat) : Option Nat := do
  let withKey ← Word.add? size pair.1
  Word.add? withKey pair.2

def addPairs? (size : Nat) : List (Nat × Nat) → Option Nat
  | [] => some size
  | pair :: pairs =>
    match addPair? size pair with
    | some size => addPairs? size pairs
    | none => none

/-- Adds the same pair of lengths to a size a number of times. -/
def addCopies? (pair : Nat × Nat) (size : Nat) : Nat → Option Nat
  | 0 => some size
  | n + 1 =>
    match addPair? size pair with
    | some size => addCopies? pair size n
    | none => none

def orTooLarge : Option Nat → Except Status Nat
  | some size => .ok size
  | none => .error .tooLarge

/-- The packed size for headers with the given lengths of key and value. -/
def sizeFor (pairs : List (Nat × Nat)) (payloadLength : Nat) : Except Status Nat :=
  orTooLarge do
    let table ← tableLength? pairs.length
    let content ← addPairs? table pairs
    Word.add? content payloadLength

/-- The packed size for `count` headers that all have the same lengths, computed without listing them. -/
def sizeForCopies (count : Nat) (pair : Nat × Nat) (payloadLength : Nat) : Except Status Nat :=
  orTooLarge do
    let table ← tableLength? count
    let content ← addCopies? pair table count
    Word.add? content payloadLength

def size (headers : List Header) (payload : Bytes) : Except Status Nat :=
  sizeFor (headers.map Header.lengths) payload.size

theorem addCopies?_eq_addPairs? (pair : Nat × Nat) (size n : Nat) :
    addCopies? pair size n = addPairs? size (List.replicate n pair) := by
  induction n generalizing size with
  | zero => rfl
  | succ n ih =>
    simp only [addCopies?, List.replicate_succ, addPairs?]
    split
    · exact ih _
    · rfl

theorem sizeForCopies_eq (count : Nat) (pair : Nat × Nat) (payloadLength : Nat) :
    sizeForCopies count pair payloadLength =
      sizeFor (List.replicate count pair) payloadLength := by
  simp only [sizeForCopies, sizeFor, addCopies?_eq_addPairs?, List.length_replicate]

end PacketHost.Flat
