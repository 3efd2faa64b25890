import PacketHost.Flat.Encoding
import PacketHost.Flat.Size

/-!
# Writing a packet in place

`write` packs headers and payload into a buffer that somebody else provides. Two positions advance
together: one through the offset table, one through the content. The buffer keeps its length and its
bytes after the packet; a buffer that is too short ends in a trap.
-/

namespace PacketHost.Flat

/-- A buffer being filled, with the next free place in its table and in its content. -/
structure Cursor where
  buffer : Bytes
  entry : Nat
  content : Nat

namespace Cursor

/-- Stores one piece and its position. -/
def put (c : Cursor) (piece : Bytes) : Except Trap Cursor := do
  let ⟨buffer, entry, content⟩ := c
  let buffer ← buffer.write entry (Word.encode content).toArray
  let buffer ← buffer.write content piece
  return ⟨buffer, ← Trap.add entry Word.width, ← Trap.add content piece.size⟩

def putAll (c : Cursor) : List Bytes → Except Trap Cursor
  | [] => .ok c
  | p :: ps => do
    let c ← c.put p
    c.putAll ps

def finish (c : Cursor) (payload : Bytes) : Except Trap Bytes := do
  let ⟨buffer, entry, content⟩ := c
  let buffer ← buffer.write entry (Word.encode content).toArray
  buffer.write content payload

end Cursor

/-- Packs headers and payload into a buffer. -/
def write (buffer : Bytes) (headers : List Header) (payload : Bytes) : Except Trap Bytes := do
  let content := (tableLength? headers.length).getD buffer.size
  let buffer ← buffer.write 0 (Word.encode headers.length).toArray
  let c ← Cursor.putAll ⟨buffer, Word.width, content⟩ (pieces headers)
  c.finish payload

end PacketHost.Flat
