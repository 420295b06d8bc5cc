import HeaderBindings.Json.Basic

/-!
Reading JSON numbers. Which numbers are integers and which are doubles depends on how they are
written. A double keeps as many leading digits as fit into 64 bits and is then scaled by a power
of ten, rounding once after each step.
-/

set_option autoImplicit false

namespace HeaderBindings.Json.Number

def digitValue (c : Char) : Nat := c.toNat - '0'.toNat

def ofDigits (digits : List Char) : Nat := digits.foldl (fun n c => 10 * n + digitValue c) 0

def maxSignificand : Nat := UInt64.size - 1

/-- The leading digits that fit into the significand, from `n` on, and how many more there are. -/
def keepWhole (n : Nat) : List Char → Nat × Nat
  | [] => (n, 0)
  | c :: cs =>
    let next := 10 * n + digitValue c
    if next ≤ maxSignificand then keepWhole next cs else (n, cs.length + 1)

/-- The significand with the leading digits of a fraction that fit, and how many those are. -/
def keepFraction (n : Nat) : List Char → Nat × Nat
  | [] => (n, 0)
  | c :: cs =>
    let next := 10 * n + digitValue c
    if next ≤ maxSignificand then
      let (significand, count) := keepFraction next cs
      (significand, count + 1)
    else (n, 0)

/-- The greatest power of ten that is a double. -/
def maxPower : Nat := 308

def power (k : Nat) : Float := Float.ofScientific 1 false k

/-- A significand times a power of ten, `none` if it is too large. Numbers too small for one
division are divided twice. -/
def scale (significand : Nat) (exponent : Int) : Option Float :=
  let f := (UInt64.ofNat significand).toFloat
  if 0 ≤ exponent then
    if exponent ≤ maxPower then
      let r := f * power exponent.toNat
      if r.isInf then none else some r
    else if significand = 0 then some f
    else none
  else if -exponent ≤ maxPower then some (f / power (-exponent).toNat)
  else some (f / power maxPower / power (min maxPower ((-exponent).toNat - maxPower)))

/-- The number with the given sign, digits before and after the point, and exponent. Without
fraction and exponent it is an integer, if it is in range; but there is no integer `-0`. -/
def ofParts (negative : Bool) (whole : List Char) (fraction : Option (List Char))
    (exponent : Option Int) : Number :=
  let n := ofDigits whole
  if fraction.isNone && exponent.isNone && !negative && n ≤ maxSignificand then
    .integer n
  else if fraction.isNone && exponent.isNone && negative && 0 < n && n ≤ Nat.pow 2 63 then
    .integer (-n)
  else
    let (kept, dropped) := keepWhole 0 whole
    let (significand, added) := keepFraction kept (fraction.getD [])
    match scale significand ((dropped : Int) - added + exponent.getD 0) with
    | none => .beyond
    | some f => .real (if negative then -f else f).toBits

def digits? (cs : List Char) : Option (List Char × List Char) :=
  match cs.takeWhile Char.isDigit with
  | [] => none
  | digits => some (digits, cs.dropWhile Char.isDigit)

/-- The digits before the point: a zero alone, or digits of which the first is no zero. -/
def whole? (cs : List Char) : Option (List Char × List Char) :=
  match digits? cs with
  | some ('0' :: _ :: _, _) => none
  | result => result

def fraction? : List Char → Option (Option (List Char) × List Char)
  | '.' :: cs => (digits? cs).map fun (digits, rest) => (some digits, rest)
  | cs => some (none, cs)

def sign : List Char → Bool × List Char
  | '-' :: cs => (true, cs)
  | '+' :: cs => (false, cs)
  | cs => (false, cs)

def exponent? : List Char → Option (Option Int × List Char)
  | c :: cs =>
    if c = 'e' ∨ c = 'E' then
      let (negative, cs) := sign cs
      (digits? cs).map fun (digits, rest) =>
        (some (if negative then -(ofDigits digits : Int) else ofDigits digits), rest)
    else some (none, c :: cs)
  | [] => some (none, [])

/-- The number at the start of the text, and the rest. -/
def read? (cs : List Char) : Option (Number × List Char) := do
  let (negative, cs) :=
    match cs with
    | '-' :: cs => (true, cs)
    | cs => (false, cs)
  let (whole, cs) ← whole? cs
  let (fraction, cs) ← fraction? cs
  let (exponent, cs) ← exponent? cs
  return (ofParts negative whole fraction exponent, cs)

end HeaderBindings.Json.Number
