import PacketHost.HostError
import PacketHost.Json.Reader
import PacketHost.Word

/-!
# Limits of a builder

`Limits` bound the size of packets and the number of headers, and may forbid empty keys. They are read from a
JSON object, in which each limit is optional and unknown members are skipped, or from an array that
gives the limits in order; they are written as a JSON object.
-/

namespace PacketHost

structure Limits where
  maxPacketSize : Nat := Word.largest
  maxHeaders : Nat := Word.largest
  rejectEmptyKeys : Bool := false
  deriving DecidableEq, Repr

namespace Limits

inductive Problem where
  | malformed
  | zeroSize
  deriving DecidableEq, Repr

def Problem.text : Problem → String
  | malformed => "not the JSON of a configuration"
  | zeroSize => "max_packet_size must be nonzero"

def Problem.error (p : Problem) : HostError := .limits p.text

def isValid (l : Limits) : Bool := l.maxPacketSize > 0

def validate (l : Limits) : Except Problem Unit := if l.isValid then .ok () else .error .zeroSize

/-! ## Fields -/

/-- The limits, in the order in which they are written. -/
inductive Field where
  | maxPacketSize
  | maxHeaders
  | rejectEmptyKeys
  deriving DecidableEq, Repr

namespace Field

def all : List Field := [maxPacketSize, maxHeaders, rejectEmptyKeys]

def name : Field → String
  | maxPacketSize => "max_packet_size"
  | maxHeaders => "max_headers"
  | rejectEmptyKeys => "reject_empty_keys"

def ofName? (name : List Char) : Option Field := all.find? fun f => f.name.toList = name

end Field

/-! ## Reading -/

structure Draft where
  maxPacketSize : Option Nat := none
  maxHeaders : Option Nat := none
  rejectEmptyKeys : Option Bool := none

/-- A value that is a machine word. -/
def word? (v : Json.Value) : Option Nat := do
  let n ← v.natural?
  if n < Word.limit then some n else none

def flag? : Json.Value → Option Bool
  | .bool b => some b
  | _ => none

namespace Draft

/-- Reads the value of a field; a field is given at most once. -/
def set (d : Draft) (field : Field) (v : Json.Value) : Option Draft :=
  match field with
  | .maxPacketSize =>
    if d.maxPacketSize.isSome then none else (word? v).map fun n => { d with maxPacketSize := some n }
  | .maxHeaders =>
    if d.maxHeaders.isSome then none else (word? v).map fun n => { d with maxHeaders := some n }
  | .rejectEmptyKeys =>
    if d.rejectEmptyKeys.isSome then none else (flag? v).map fun b => { d with rejectEmptyKeys := some b }

/-- Reads the members of an object; names must be texts, and unknown ones are skipped. -/
def setMembers (d : Draft) : List (List Char × Json.Value) → Option Draft
  | [] => some d
  | (content, v) :: members =>
    match Json.decodeString? content with
    | none => none
    | some name =>
      match Field.ofName? name with
      | none => d.setMembers members
      | some field =>
        match d.set field v with
        | some d => d.setMembers members
        | none => none

/-- Reads the elements of an array, one for each field in order; later fields may be missing. -/
def setElements (d : Draft) : List Field → List Json.Value → Option Draft
  | _, [] => some d
  | [], _ :: _ => none
  | field :: fields, v :: vs =>
    match d.set field v with
    | some d => d.setElements fields vs
    | none => none

/-- The limits read, with the usual ones where none was given. -/
def limits (d : Draft) : Limits :=
  let usual : Limits := {}
  ⟨d.maxPacketSize.getD usual.maxPacketSize, d.maxHeaders.getD usual.maxHeaders,
    d.rejectEmptyKeys.getD usual.rejectEmptyKeys⟩

end Draft

def ofValue? (v : Json.Value) : Option Limits :=
  match v with
  | .object members => (({} : Draft).setMembers members).map Draft.limits
  | .array elements => (({} : Draft).setElements Field.all elements).map Draft.limits
  | _ => none

/-- The limits that a text gives, if they allow some packet. -/
def parse (text : String) : Except Problem Limits :=
  match (Json.read? text).bind ofValue? with
  | none => .error .malformed
  | some l => do
    l.validate
    return l

/-! ## Writing -/

def value (l : Limits) : Field → Json.Value
  | .maxPacketSize => .ofNat l.maxPacketSize
  | .maxHeaders => .ofNat l.maxHeaders
  | .rejectEmptyKeys => .bool l.rejectEmptyKeys

def render (l : Limits) : String :=
  String.ofList (Json.Value.object (Field.all.map fun f => (f.name.toList, l.value f))).print

def debug (l : Limits) : String :=
  s!"BuilderConfig \x7b max_packet_size: {l.maxPacketSize}, max_headers: {l.maxHeaders}, " ++
    s!"reject_empty_keys: {l.rejectEmptyKeys} \x7d"

end Limits

end PacketHost
