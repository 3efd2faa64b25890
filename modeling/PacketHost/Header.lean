import PacketHost.Bytes

/-!
# Headers

A packet carries an ordered list of headers, each a key and a value of any bytes; keys may repeat. Two
keys have a meaning: the id of a packet and the ids of the packets it depends on.
-/

namespace PacketHost

structure Header where
  key : Bytes := #[]
  val : Bytes := #[]
  deriving DecidableEq, Repr, Inhabited

namespace Header

/-- The key of the header that holds the id of a packet. -/
def idKey : Bytes := "a0_id".toUTF8.data

/-- The key of each header that holds the id of a packet depended on. -/
def depKey : Bytes := "a0_dep".toUTF8.data

def id (val : Bytes) : Header := ⟨idKey, val⟩

def dep (val : Bytes) : Header := ⟨depKey, val⟩

/-- Number of bytes in key and value. -/
def contentLength (h : Header) : Nat := h.key.size + h.val.size

def lengths (h : Header) : Nat × Nat := (h.key.size, h.val.size)

end Header

end PacketHost
