import HeaderBindings.Json.Codec

/-!
Records: values with named fields. A record is written as an object with its fields in the order
of their declaration. It is read from such an object, the order of its members being free and
members of other names being skipped, or from an array of the fields in order.
-/

set_option autoImplicit false

namespace HeaderBindings.Json

/-- The fields of a record, whose values together form a nested pair. A field with a fallback may
be left out. -/
inductive Fields : Type → Type 1
  | nil : Fields Unit
  | cons {α β : Type} (name : String) (fallback : Option α) (codec : Codec α) (rest : Fields β) :
    Fields (α × β)

namespace Fields

def count {τ : Type} : Fields τ → Nat
  | nil => 0
  | cons _ _ _ rest => rest.count + 1

def names {τ : Type} : Fields τ → List String
  | nil => []
  | cons name _ _ rest => name :: rest.names

def members {τ : Type} : Fields τ → τ → List (Key × Json)
  | nil, _ => []
  | cons name _ codec rest, values =>
    (.text name, codec.encode values.1) :: rest.members values.2

/-- The values of the fields that were read so far. -/
def Slots {τ : Type} : Fields τ → Type
  | nil => Unit
  | @cons α _ _ _ _ rest => Option α × rest.Slots

def noSlots {τ : Type} : (fields : Fields τ) → fields.Slots
  | nil => ()
  | cons _ _ _ rest => (none, rest.noSlots)

/-- Reads the member with the given key into its slot, `none` if no field has that name. A field
that was read already is a fault before its value is looked at. -/
def put (source : Source) (key : String) (v : Json) {τ : Type} :
    (fields : Fields τ) → fields.Slots → Except Fault (Option fields.Slots)
  | nil, _ => .ok none
  | cons name _ codec rest, slots =>
    if key = name then
      match slots.1 with
      | some _ => .error (.duplicateField name)
      | none => do
        let a ← codec.decode source v
        return some (some a, slots.2)
    else do
      let found ← rest.put source key v slots.2
      return found.map fun others => (slots.1, others)

/-- The values of all fields, once every member was read. The first field that has neither a value
nor a fallback is a fault. -/
def close {τ : Type} : (fields : Fields τ) → fields.Slots → Except Fault τ
  | nil, _ => .ok ()
  | cons name fallback _ rest, slots =>
    match slots.1.or fallback with
    | none => .error (.missingField name)
    | some a => do return (a, ← rest.close slots.2)

/-- Reads members one after another. A member of another name is skipped, but has to be whole. -/
def putAll (source : Source) {τ : Type} (fields : Fields τ) (slots : fields.Slots) :
    List (Key × Json) → Except Fault fields.Slots
  | [] => .ok slots
  | (.text key, v) :: ms => do
    match ← fields.put source key v slots with
    | some slots => putAll source fields slots ms
    | none => if v.isWhole then putAll source fields slots ms else .error .notJson
  | _ => .error .notJson

/-- Reads the fields in order from elements, of which `given` were read before; returns what is
left of the elements too. -/
def takeAll (source : Source) (wanted : Wanted) {τ : Type} :
    Fields τ → (given : Nat) → List Json → Except Fault (τ × List Json)
  | nil, _, items => .ok ((), items)
  | cons _ fallback _ rest, given, [] =>
    match fallback with
    | none => .error (.invalidLength given wanted)
    | some a => do
      let (b, left) ← rest.takeAll source wanted given []
      return ((a, b), left)
  | cons _ _ codec rest, given, v :: vs => do
    let a ← codec.decode source v
    let (b, left) ← rest.takeAll source wanted (given + 1) vs
    return ((a, b), left)

def decode (source : Source) (title : String) {τ : Type} (fields : Fields τ) :
    Json → Except Fault τ
  | .object ms => do fields.close (← fields.putAll source fields.noSlots (source.members ms))
  | .array items => do
    let (b, left) ← fields.takeAll source (.fields title fields.count) 0 items
    match source, left with
    | _, [] => return b
    | .text, _ => .error .notJson
    | .memory, _ => .error (.invalidLength items.length .fewer)
  | v => .error (unexpected v (.record title))

end Fields

/-- The codec of a record that is equivalent to the values of its fields. -/
def Codec.record {α τ : Type} (title : String) (fields : Fields τ) (toFields : α → τ)
    (ofFields : τ → α) : Codec α where
  encode a := .object (fields.members (toFields a))
  decode source v := (fields.decode source title v).map ofFields

end HeaderBindings.Json
