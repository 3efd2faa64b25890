import PacketHost.Json.Value

/-!
# Reading JSON

`read?` takes a text apart token by token. A `Reader` holds what has been read so far: the arrays and
objects that are still open, the innermost first, and what may come next. Nesting therefore has no limit.
-/

namespace PacketHost.Json

/-- An array or an object that is not closed yet, with what it holds so far, the last first. -/
inductive Open where
  | array (before : List Value)
  /-- An object that waits for the value of a name. -/
  | object (before : List (List Char × Value)) (name : List Char)

/-- What may come next. -/
inductive Expected where
  | value
  | firstElement
  | firstName
  | name (before : List (List Char × Value))
  | colon (before : List (List Char × Value)) (name : List Char)
  /-- A value is complete; it may be followed by another one, or end what holds it. -/
  | next (value : Value)

structure Reader where
  stack : List Open := []
  expected : Expected := .value

namespace Reader

def stepValue (stack : List Open) : Token → Option Reader
  | .null => some ⟨stack, .next .null⟩
  | .bool b => some ⟨stack, .next (.bool b)⟩
  | .number literal => some ⟨stack, .next (.number literal)⟩
  | .string content => some ⟨stack, .next (.string content)⟩
  | .openArray => some ⟨stack, .firstElement⟩
  | .openObject => some ⟨stack, .firstName⟩
  | _ => none

def stepNext (value : Value) : List Open → Token → Option Reader
  | .array before :: stack, .comma => some ⟨.array (value :: before) :: stack, .value⟩
  | .array before :: stack, .closeArray => some ⟨stack, .next (.array (value :: before).reverse)⟩
  | .object before name :: stack, .comma => some ⟨stack, .name ((name, value) :: before)⟩
  | .object before name :: stack, .closeObject =>
    some ⟨stack, .next (.object ((name, value) :: before).reverse)⟩
  | _, _ => none

def step (r : Reader) (t : Token) : Option Reader :=
  match r.expected, t with
  | .value, t => stepValue r.stack t
  | .firstElement, .closeArray => some ⟨r.stack, .next (.array [])⟩
  | .firstElement, t => stepValue (.array [] :: r.stack) t
  | .firstName, .closeObject => some ⟨r.stack, .next (.object [])⟩
  | .firstName, .string name => some ⟨r.stack, .colon [] name⟩
  | .name before, .string name => some ⟨r.stack, .colon before name⟩
  | .colon before name, .colon => some ⟨.object before name :: r.stack, .value⟩
  | .next value, t => stepNext value r.stack t
  | _, _ => none

/-- The value read, if it is complete and nothing is open. -/
def finish? (r : Reader) : Option Value :=
  match r.stack, r.expected with
  | [], .next value => some value
  | _, _ => none

def steps (r : Reader) : List Token → Option Reader
  | [] => some r
  | t :: ts =>
    match r.step t with
    | some r => r.steps ts
    | none => none

def run (r : Reader) (s : List Char) : Option Value :=
  match s with
  | [] => r.finish?
  | c :: rest =>
    if isBlank c then r.run rest
    else
      match _h : scanToken (c :: rest) with
      | none => none
      | some (t, rest') =>
        match r.step t with
        | some r => r.run rest'
        | none => none
termination_by s.length
decreasing_by
  · simp
  · exact scanToken_length _h

end Reader

def read? (s : String) : Option Value := ({} : Reader).run s.toList

end PacketHost.Json
