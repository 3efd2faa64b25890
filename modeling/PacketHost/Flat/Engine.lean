import PacketHost.Engine.Basic
import PacketHost.Flat.Table
import PacketHost.Flat.Writer

/-!
# The flat engine

The flat engine packs a packet into one buffer, obtained by a single request for exactly the packed size,
and reads it back without copying. Its entry points answer by status: a missing place for the answer is
reported before anything else is looked at, and a trap would be reported as an internal failure.
-/

namespace PacketHost.Flat

def name : String := "flat"

def release : String := "0.1.0"

/-! ## Answers -/

/-- The answer of an entry point, given what it computes. -/
def answer {α : Type} (hasOut : Bool) (result : Except (Halt Status) α) : Answer α :=
  if hasOut then
    match result with
    | .ok value => ⟨Status.okCode, some value⟩
    | .error (.refused s) => ⟨s.code, none⟩
    | .error (.trapped _) => ⟨Status.internal.code, none⟩
  else ⟨Status.badAddress.code, none⟩

/-- The span of a part of the packet; one without bytes has no address. -/
def place (s : Slice) (e : Extent) : Span :=
  if e.length = 0 then Span.null else ⟨s.base + e.start, e.length⟩

/-- The packet in a view, with its frame checked. -/
def table (view : View) : Except (Halt Status) (Slice × Flat.Table) :=
  match view.slice? with
  | none => Halt.refuse .invalidArgument
  | some s => do
    let t ← Flat.Table.ofBytes s.bytes
    return (s, t)

/-! ## Reads -/

def count (view : View) (hasOut : Bool) : Answer Nat :=
  answer hasOut do
    let (_, t) ← table view
    return t.count

def header (view : View) (index : Nat) (hasOut : Bool) : Answer HeaderSpan :=
  answer hasOut do
    let (s, t) ← table view
    let (key, val) ← t.header index
    return ⟨place s key, place s val⟩

def payload (view : View) (hasOut : Bool) : Answer Span :=
  answer hasOut do
    let (s, t) ← table view
    let e ← t.payload
    return place s e

def find (view : View) (key : Source) (hasOut : Bool) : Answer Span :=
  answer hasOut <|
    if key.isValid then do
      let (s, t) ← table view
      let e ← t.search key.holds
      return place s e
    else Halt.refuse .invalidArgument

/-! ## Building -/

/-- The headers handed to a build: a null pointer with a number, or that many entries. -/
inductive HeaderArray where
  | null (count : Nat)
  | entries (headers : List (Source × Source))

/-- The entries of a header array; only an empty one may be null. -/
def HeaderArray.entries? : HeaderArray → Option (List (Source × Source))
  | null 0 => some []
  | null _ => none
  | entries headers => some headers

/-- The checks before the request: the headers and the packed size. Room for the list of pairs is reserved before any
span is looked at; that memory may run out there is left out. -/
def prepare (headers : HeaderArray) (payload : Source) (hasAlloc : Bool) :
    Except Status (List (Source × Source) × Nat) :=
  match headers.entries? with
  | none => .error .invalidArgument
  | some pairs =>
    if pairs.all (fun p => p.1.isValid && p.2.isValid) && payload.isValid && hasAlloc then do
      let size ← Flat.sizeFor (pairs.map fun p => (p.1.readable, p.2.readable)) payload.readable
      return (pairs, size)
    else .error .invalidArgument

def contents (pairs : List (Source × Source)) : List Header :=
  pairs.map fun p => ⟨p.1.bytes, p.2.bytes⟩

/-- What follows the request: the packet is written at the start of the buffer. -/
def fill (pairs : List (Source × Source)) (payload : Source) (size : Nat) (reply : Reply) : Packing :=
  if reply.status = Status.okCode then
    let buffer := reply.written.getD Span.null
    if buffer.isNull ∨ buffer.len < size then .finish Status.outOfMemory.code none
    else .load buffer.addr size fun old =>
      match Flat.write old (contents pairs) payload.bytes with
      | .ok packed => .store buffer.addr packed (.finish Status.okCode (some ⟨buffer.addr, size⟩))
      | .error _ => .finish Status.internal.code none
  else .finish reply.status none

/-- Packs headers and payload into a buffer of the packed size. -/
def build (headers : HeaderArray) (payload : Source) (hasAlloc hasOut : Bool) : Packing :=
  if hasOut then
    match prepare headers payload hasAlloc with
    | .ok (pairs, size) => .request size true true (fill pairs payload size)
    | .error s => .finish s.code none
  else .finish Status.badAddress.code none

def engine {m : Type → Type} [Monad m] : Engine m where
  name := name
  abiVersion := Abi.version
  build headers payload := pure (build (.entries headers) payload true true)
  count view := pure (count view true)
  header view index := pure (header view index true)
  payload view := pure (payload view true)
  find view key := pure (find view key true)

end PacketHost.Flat
