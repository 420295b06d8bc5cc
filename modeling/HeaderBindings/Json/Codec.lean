import HeaderBindings.Json.Basic

/-!
Codecs: how the values of a type are written as JSON and read back. There are two sources to read
from. A text is read in its own order, and what follows its first fault is not looked at. A value
that is already in memory is well formed; the members of its objects are taken in the order of
their keys, and of members with one key the last counts.
-/

set_option autoImplicit false

namespace HeaderBindings.Json

inductive Source
  | text
  | memory
  deriving DecidableEq, Repr

def insertMember (key : String) (v : Json) : List (String × Json) → List (String × Json)
  | [] => [(key, v)]
  | (k, w) :: ms =>
    if key = k then (k, v) :: ms
    else if key < k then (key, v) :: (k, w) :: ms
    else (k, w) :: insertMember key v ms

/-- The members in the order of their keys, one for each key. -/
def sortMembers (members : List (Key × Json)) : List (Key × Json) :=
  let sorted := members.foldl
    (fun ms (k, v) =>
      match k with
      | .text key => insertMember key v ms
      | _ => ms)
    []
  sorted.map fun (k, v) => (.text k, v)

def Source.members : Source → List (Key × Json) → List (Key × Json)
  | text, ms => ms
  | memory, ms => sortMembers ms

structure Codec (α : Type) where
  encode : α → Json
  decode : Source → Json → Except Fault α

namespace Codec

def text : Codec String where
  encode s := .text (some s)
  decode _
    | .text (some s) => .ok s
    | v => .error (unexpected v .text)

def boolean : Codec Bool where
  encode b := .boolean b
  decode _
    | .boolean b => .ok b
    | v => .error (unexpected v .boolean)

/-- Sizes: integers from zero on, of 64 bits. -/
def size : Codec UInt64 where
  encode n := .number (.integer n.toNat)
  decode _
    | .number (.integer n) =>
      if 0 ≤ n ∧ n < UInt64.size then .ok (UInt64.ofNat n.toNat)
      else .error (.invalidValue (.integer n) .size)
    | v => .error (unexpected v .size)

def list {α : Type} (c : Codec α) : Codec (List α) where
  encode vs := .array (vs.map c.encode)
  decode source
    | .array vs => vs.mapM (c.decode source)
    | v => .error (unexpected v .sequence)

/-- One of several names, written as a string. It can also be read from an object with the name as
its only key and `null` as the value. -/
def choice {α : Type} (choices : List String) (name : α → String) (ofName? : String → Option α) :
    Codec α where
  encode a := .text (some (name a))
  decode source v :=
    let named (s : String) : Except Fault α :=
      match ofName? s with
      | some a => .ok a
      | none => .error (.unknownChoice s choices)
    let payload (a : α) : Json → Except Fault α
      | .null => .ok a
      | w => .error (unexpected w .nothing)
    match source, v with
    | _, .text (some s) => named s
    | .text, .object ((.text s, w) :: rest) => do
      let a ← payload (← named s) w
      if rest.isEmpty then return a else .error .notJson
    | .text, .object ((.misplaced (some kind), _) :: _) => .error (.invalidType kind .choiceName)
    | .text, _ => .error .notJson
    | .memory, .object ms =>
      match sortMembers ms with
      | [(.text s, w)] => do payload (← named s) w
      | _ => .error (.invalidValue .map .choiceMember)
    | .memory, v => .error (unexpected v .choice)

def decodeText {α : Type} (c : Codec α) (v : Json) (isComplete : Bool) : Except Fault α := do
  let a ← c.decode .text v
  if isComplete then return a else .error .notJson

end Codec

end HeaderBindings.Json
