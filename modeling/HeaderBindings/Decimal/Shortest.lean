/-!
The shortest decimal that reads back as a given binary double, and its text. All arithmetic is
exact, on fractions of natural numbers: for one digit, two digits, and so on up to seventeen, the
two neighbours of the value on that decimal grid are tried, and the first that rounds to the
double wins.
-/

set_option autoImplicit false

namespace HeaderBindings.Decimal

structure Fraction where
  num : Nat
  den : Nat

def Fraction.le (x y : Fraction) : Bool := x.num * y.den ≤ y.num * x.den

def Fraction.shift (x : Fraction) (k : Int) : Fraction :=
  if 0 ≤ k then ⟨x.num * Nat.pow 10 k.toNat, x.den⟩
  else ⟨x.num, x.den * Nat.pow 10 (-k).toNat⟩

/-- A positive double `m · 2 ^ q`, told apart from its neighbours. -/
structure Double where
  m : Nat
  q : Int

/-- `m · 2 ^ (q - 2)` as a fraction: quarters of the last place of a double are whole here. -/
def quarters (m : Nat) (q : Int) : Fraction :=
  if 2 ≤ q then ⟨m * Nat.pow 2 (q - 2).toNat, 1⟩ else ⟨m, Nat.pow 2 (2 - q).toNat⟩

namespace Double

/-- The magnitude of the double with the given bit pattern; zero has `m = 0`. -/
def ofBits (bits : UInt64) : Double :=
  let fraction : Nat := bits.toNat % Nat.pow 2 52
  let exponent : Nat := bits.toNat / Nat.pow 2 52 % Nat.pow 2 11
  if exponent = 0 then ⟨fraction, -1074⟩
  else ⟨fraction + Nat.pow 2 52, (exponent : Int) - 1075⟩

def value (d : Double) : Fraction := quarters (4 * d.m) d.q

/-- The least real that rounds to the double, if `d.m` is even; half as far away at a power of
two, where the doubles below lie closer. -/
def low (d : Double) : Fraction :=
  if d.m = Nat.pow 2 52 ∧ -1074 < d.q then quarters (4 * d.m - 1) d.q
  else quarters (4 * d.m - 2) d.q

def high (d : Double) : Fraction := quarters (4 * d.m + 2) d.q

/-- Whether a fraction rounds to the double: the ends belong to it exactly for an even `d.m`. -/
def rounds (d : Double) (x : Fraction) : Bool :=
  if d.m % 2 = 0 then d.low.le x && x.le d.high
  else !x.le d.low && !d.high.le x

/-- The number of decimal digits before the point, zero or less for a value below one tenth:
`10 ^ (p - 1) ≤ value < 10 ^ p`. -/
def magnitude (d : Double) : Int :=
  let v := d.value
  let guess : Int := ((Nat.toDigits 10 v.num).length : Int) - (Nat.toDigits 10 v.den).length
  if (Fraction.shift ⟨1, 1⟩ guess).le v then guess + 1 else guess

/-- On the grid of multiples of `10 ^ k`, the neighbour of the value that rounds to the double, the
nearer one if both do. -/
def onGrid (d : Double) (k : Int) : Option Nat :=
  let v := d.value.shift (-k)
  let below := v.num / v.den
  let hits (n : Nat) : Bool := d.rounds (Fraction.shift ⟨n, 1⟩ k)
  match hits below, hits (below + 1) with
  | true, true =>
    let nearerBelow := 2 * (v.num % v.den) < v.den
    some (if nearerBelow then below else below + 1)
  | true, false => some below
  | false, true => some (below + 1)
  | false, false => none

/-- The digits of the shortest decimal, from the first grid of `left` further ones that has a hit,
and the exponent of its last digit. -/
def shortestFrom (d : Double) (k : Int) : Nat → Nat × Int
  | 0 => (d.value.num / d.value.den, 0)
  | left + 1 =>
    match d.onGrid k with
    | some n => (n, k)
    | none => d.shortestFrom (k - 1) left

/-- The shortest decimal `n · 10 ^ k` that rounds to the double, as `(n, k)`. -/
def shortest (d : Double) : Nat × Int :=
  if d.m = 0 then (0, 0) else d.shortestFrom (d.magnitude - 1) 17

end Double

def dropZerosEnd (digits : List Char) : List Char × Nat :=
  let kept := (digits.reverse.dropWhile (· == '0')).reverse
  (kept, digits.length - kept.length)

/-- A positive decimal as text: digits around a point while the exponent of the first digit lies
between -5 and 15, and else one digit before the point and a signed exponent. -/
def layout (digits : List Char) (exponent : Int) : List Char :=
  let point := exponent + digits.length
  if 0 < point ∧ point ≤ 16 then
    let whole := digits.take point.toNat
    let zeros := List.replicate (point.toNat - digits.length) '0'
    match digits.drop point.toNat with
    | [] => whole ++ zeros ++ ['.', '0']
    | part => whole ++ '.' :: part
  else if -5 < point ∧ point ≤ 0 then
    '0' :: '.' :: List.replicate (-point).toNat '0' ++ digits
  else
    let power := point - 1
    let mantissa :=
      match digits with
      | [] => []
      | [d] => [d]
      | d :: ds => d :: '.' :: ds
    mantissa ++ 'e' :: (if power < 0 then '-' else '+') :: Nat.toDigits 10 power.natAbs

def ofDouble (bits : UInt64) : String :=
  let sign := if Nat.pow 2 63 ≤ bits.toNat then ['-'] else []
  let (n, k) := (Double.ofBits bits).shortest
  let (digits, zeros) := dropZerosEnd (Nat.toDigits 10 n)
  String.ofList (sign ++ if n = 0 then ['0', '.', '0'] else layout digits (k + zeros))

end HeaderBindings.Decimal
