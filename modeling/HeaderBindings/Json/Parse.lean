import HeaderBindings.Json.Literal
import HeaderBindings.Json.Number
import HeaderBindings.Text.Scan

set_option autoImplicit false

namespace HeaderBindings.Json

def isGap (c : Char) : Bool := c == ' ' || c == '\n' || c == '\t' || c == '\r'

def dropGap (cs : List Char) : List Char := cs.dropWhile isGap

def readName (name : List Char) (v : Json) (cs : List Char) : Json × Option (List Char) :=
  match Text.afterLiteral name cs with
  | some rest => (v, some rest)
  | none => (.cut, none)

def readNumber (cs : List Char) : Json × Option (List Char) :=
  match Number.read? cs with
  | some (n, rest) => (.number n, some rest)
  | none => (.cut, none)

def Key.ofLiteral : Option String → Key
  | some s => .text s
  | none => .unpaired

mutual

/-- Reads a value: the tree, and what follows it; nothing follows where the text is cut. The fuel
bounds the steps, each of which takes at least one character. -/
def readValue : Nat → List Char → Json × Option (List Char)
  | 0, _ => (.cut, none)
  | fuel + 1, cs =>
    match dropGap cs with
    | [] => (.cut, none)
    | c :: cs =>
      if c = '"' then
        match Literal.read? cs with
        | some (s, rest) => (.text s, some rest)
        | none => (.cut, none)
      else if c = '[' then
        match dropGap cs with
        | ']' :: rest => (.array [], some rest)
        | cs =>
          let (items, rest) := readItems fuel cs
          (.array items, rest)
      else if c = '{' then
        match dropGap cs with
        | '}' :: rest => (.object [], some rest)
        | cs =>
          let (members, rest) := readMembers fuel cs
          (.object members, rest)
      else if c = 'n' then readName ['u', 'l', 'l'] .null cs
      else if c = 't' then readName ['r', 'u', 'e'] (.boolean true) cs
      else if c = 'f' then readName ['a', 'l', 's', 'e'] (.boolean false) cs
      else readNumber (c :: cs)

def readItems : Nat → List Char → List Json × Option (List Char)
  | 0, _ => ([.cut], none)
  | fuel + 1, cs =>
    match readValue fuel cs with
    | (v, none) => ([v], none)
    | (v, some rest) =>
      match dropGap rest with
      | ']' :: rest => ([v], some rest)
      | ',' :: rest =>
        let (vs, rest) := readItems fuel rest
        (v :: vs, rest)
      | _ => ([v, .cut], none)

def readMembers : Nat → List Char → List (Key × Json) × Option (List Char)
  | 0, _ => ([(.misplaced none, .cut)], none)
  | fuel + 1, cs =>
    match dropGap cs with
    | '"' :: cs =>
      match Literal.read? cs with
      | none => ([(.misplaced none, .cut)], none)
      | some (s, rest) =>
        match dropGap rest with
        | ':' :: rest =>
          match readValue fuel rest with
          | (v, none) => ([(.ofLiteral s, v)], none)
          | (v, some rest) =>
            match dropGap rest with
            | '}' :: rest => ([(.ofLiteral s, v)], some rest)
            | ',' :: rest =>
              let (ms, rest) := readMembers fuel rest
              ((.ofLiteral s, v) :: ms, rest)
            | _ => ([(.ofLiteral s, v), (.misplaced none, .cut)], none)
        | _ => ([(.ofLiteral s, .cut)], none)
    | cs => ([(.misplaced (readValue fuel cs).1.kind?, .cut)], none)

end

structure Document where
  value : Json
  /-- Nothing but white space follows the value. -/
  isComplete : Bool

def Document.ofText (s : String) : Document :=
  let cs := s.toList
  match readValue (cs.length + 1) cs with
  | (v, some rest) => ⟨v, (dropGap rest).isEmpty⟩
  | (v, none) => ⟨v, false⟩

end HeaderBindings.Json
