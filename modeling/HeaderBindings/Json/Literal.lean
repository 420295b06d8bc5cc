import HeaderBindings.Json.Basic

set_option autoImplicit false

namespace HeaderBindings.Json.Literal

/-- One unit of a literal: a character, or the number of an escape with four digits, which may be
half of a surrogate pair. -/
inductive Unit
  | char (c : Char)
  | code (n : Nat)
  deriving DecidableEq, Repr

def hexValue? (c : Char) : Option Nat :=
  if c.isDigit then some (c.toNat - '0'.toNat)
  else if 'a' ≤ c ∧ c ≤ 'f' then some (c.toNat - 'a'.toNat + 10)
  else if 'A' ≤ c ∧ c ≤ 'F' then some (c.toNat - 'A'.toNat + 10)
  else none

def hex4? (a b c d : Char) : Option Nat := do
  return ((← hexValue? a) * 16 + (← hexValue? b)) * 256 + ((← hexValue? c) * 16 + (← hexValue? d))

def escaped? : Char → Option Char
  | '"' => some '"'
  | '\\' => some '\\'
  | '/' => some '/'
  | 'b' => some '\x08'
  | 'f' => some '\x0c'
  | 'n' => some '\n'
  | 'r' => some '\r'
  | 't' => some '\t'
  | _ => none

def push (u : Unit) (r : List Unit × List Char) : List Unit × List Char := (u :: r.1, r.2)

/-- The units up to the closing quotation mark, and what follows it. -/
def units? : List Char → Option (List Unit × List Char)
  | [] => none
  | '"' :: cs => some ([], cs)
  | '\\' :: 'u' :: a :: b :: c :: d :: cs =>
    (hex4? a b c d).bind fun n => (units? cs).map (push (.code n))
  | '\\' :: e :: cs => (escaped? e).bind fun c => (units? cs).map (push (.char c))
  | ['\\'] => none
  | c :: cs => if c.toNat < 0x20 then none else (units? cs).map (push (.char c))

def isHigh (n : Nat) : Bool := 0xD800 ≤ n && n ≤ 0xDBFF

def isLow (n : Nat) : Bool := 0xDC00 ≤ n && n ≤ 0xDFFF

/-- The characters of the units, `none` if half of a surrogate pair stands alone. -/
def decode? : List Unit → Option (List Char)
  | [] => some []
  | .char c :: us => (decode? us).map (c :: ·)
  | .code n :: us =>
    if isHigh n then
      match us with
      | .code m :: rest =>
        if isLow m then
          (decode? rest).map (Char.ofNat (0x10000 + (n - 0xD800) * 0x400 + (m - 0xDC00)) :: ·)
        else none
      | _ => none
    else if isLow n then none
    else (decode? us).map (Char.ofNat n :: ·)

/-- Reads a literal after its opening quotation mark: its text, if it has one, and the rest. -/
def read? (cs : List Char) : Option (Option String × List Char) :=
  (units? cs).map fun (us, rest) => ((decode? us).map String.ofList, rest)

def hexDigit (n : Nat) : Char := Nat.digitChar n

def encodeChar (c : Char) : List Char :=
  if c = '"' then ['\\', '"']
  else if c = '\\' then ['\\', '\\']
  else if c.toNat < 0x20 then
    if c = '\x08' then ['\\', 'b']
    else if c = '\x0c' then ['\\', 'f']
    else if c = '\n' then ['\\', 'n']
    else if c = '\r' then ['\\', 'r']
    else if c = '\t' then ['\\', 't']
    else ['\\', 'u', '0', '0', hexDigit (c.toNat / 16), hexDigit (c.toNat % 16)]
  else [c]

/-- Writes a literal with its quotation marks. -/
def write (s : String) : List Char := '"' :: s.toList.flatMap encodeChar ++ ['"']

end HeaderBindings.Json.Literal
