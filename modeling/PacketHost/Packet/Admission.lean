import PacketHost.Header
import PacketHost.Limits

/-!
# Admitting headers and payload

Before an engine is asked, headers and payload are held against the limits: first the number of headers, then
empty keys, then the size of the content.
-/

namespace PacketHost.Limits

def contentSize? (headers : List Header) (payload : Bytes) : Option Nat :=
  headers.foldlM (fun size h => Word.add? size h.contentLength) payload.size

def firstEmptyKey? (headers : List Header) : Option Nat := headers.findIdx? fun h => h.key.isEmpty

/-- Accepts headers and payload within the limits. -/
def check (l : Limits) (headers : List Header) (payload : Bytes) : Except HostError Unit :=
  if l.maxHeaders < headers.length then
    .error (.invalidArgument s!"{headers.length} headers exceeds limit of {l.maxHeaders}")
  else
    match if l.rejectEmptyKeys then firstEmptyKey? headers else none with
    | some index => .error (.invalidArgument s!"header {index} has an empty key")
    | none =>
      match contentSize? headers payload with
      | some size =>
        if size ≤ l.maxPacketSize then .ok ()
        else .error (.invalidArgument
          s!"{size} content bytes exceeds packet limit of {l.maxPacketSize}")
      | none => .error (.invalidArgument "content size overflows")

end PacketHost.Limits
