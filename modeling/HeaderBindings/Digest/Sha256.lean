set_option autoImplicit false

namespace HeaderBindings.Digest

/-- The eight words that the blocks of a message are folded into. -/
structure Words where
  a : UInt32
  b : UInt32
  c : UInt32
  d : UInt32
  e : UInt32
  f : UInt32
  g : UInt32
  h : UInt32

def Words.add (x y : Words) : Words :=
  ⟨x.a + y.a, x.b + y.b, x.c + y.c, x.d + y.d, x.e + y.e, x.f + y.f, x.g + y.g, x.h + y.h⟩

def Words.toList (x : Words) : List UInt32 := [x.a, x.b, x.c, x.d, x.e, x.f, x.g, x.h]

/-- The words before the first block: fractions of the square roots of the first eight primes. -/
def Words.initial : Words :=
  ⟨0x6a09e667, 0xbb67ae85, 0x3c6ef372, 0xa54ff53a, 0x510e527f, 0x9b05688c, 0x1f83d9ab, 0x5be0cd19⟩

def roundConstants : List UInt32 :=
  [0x428a2f98, 0x71374491, 0xb5c0fbcf, 0xe9b5dba5, 0x3956c25b, 0x59f111f1, 0x923f82a4, 0xab1c5ed5,
    0xd807aa98, 0x12835b01, 0x243185be, 0x550c7dc3, 0x72be5d74, 0x80deb1fe, 0x9bdc06a7, 0xc19bf174,
    0xe49b69c1, 0xefbe4786, 0x0fc19dc6, 0x240ca1cc, 0x2de92c6f, 0x4a7484aa, 0x5cb0a9dc, 0x76f988da,
    0x983e5152, 0xa831c66d, 0xb00327c8, 0xbf597fc7, 0xc6e00bf3, 0xd5a79147, 0x06ca6351, 0x14292967,
    0x27b70a85, 0x2e1b2138, 0x4d2c6dfc, 0x53380d13, 0x650a7354, 0x766a0abb, 0x81c2c92e, 0x92722c85,
    0xa2bfe8a1, 0xa81a664b, 0xc24b8b70, 0xc76c51a3, 0xd192e819, 0xd6990624, 0xf40e3585, 0x106aa070,
    0x19a4c116, 0x1e376c08, 0x2748774c, 0x34b0bcb5, 0x391c0cb3, 0x4ed8aa4a, 0x5b9cca4f, 0x682e6ff3,
    0x748f82ee, 0x78a5636f, 0x84c87814, 0x8cc70208, 0x90befffa, 0xa4506ceb, 0xbef9a3f7, 0xc67178f2]

def rotate (x : UInt32) (n : UInt32) : UInt32 := (x >>> n) ||| (x <<< (32 - n))

def round (x : Words) (word constant : UInt32) : Words :=
  let mixE := rotate x.e 6 ^^^ rotate x.e 11 ^^^ rotate x.e 25
  let choice := (x.e &&& x.f) ^^^ ((~~~x.e) &&& x.g)
  let first := x.h + mixE + choice + constant + word
  let mixA := rotate x.a 2 ^^^ rotate x.a 13 ^^^ rotate x.a 22
  let majority := (x.a &&& x.b) ^^^ (x.a &&& x.c) ^^^ (x.b &&& x.c)
  ⟨first + mixA + majority, x.a, x.b, x.c, x.d + first, x.e, x.f, x.g⟩

/-- Adds words to a schedule that is kept with its last word in front. -/
def extend : Nat → List UInt32 → List UInt32
  | 0, words => words
  | n + 1, words =>
    let at_ (i : Nat) : UInt32 := words.getD (i - 1) 0
    let w15 := at_ 15
    let w2 := at_ 2
    let small0 := rotate w15 7 ^^^ rotate w15 18 ^^^ (w15 >>> 3)
    let small1 := rotate w2 17 ^^^ rotate w2 19 ^^^ (w2 >>> 10)
    extend n ((at_ 16 + small0 + at_ 7 + small1) :: words)

def schedule (block : List UInt32) : List UInt32 := (extend 48 block.reverse).reverse

def compress (x : Words) (block : List UInt32) : Words :=
  x.add (((schedule block).zip roundConstants).foldl (fun y (w, k) => round y w k) x)

def wordOf (a b c d : UInt8) : UInt32 :=
  (a.toUInt32 <<< 24) ||| (b.toUInt32 <<< 16) ||| (c.toUInt32 <<< 8) ||| d.toUInt32

/-- The bytes as words; there are none left over if their number is a multiple of four. -/
def wordsOf : List UInt8 → List UInt32
  | a :: b :: c :: d :: rest => wordOf a b c d :: wordsOf rest
  | _ => []

def lengthBytes (n : Nat) : List UInt8 :=
  (List.range 8).map fun i => UInt8.ofNat (n / Nat.pow 256 (7 - i))

/-- The message with a one bit, zeros, and its number of bits, a multiple of sixty-four bytes. -/
def pad (message : List UInt8) : List UInt8 :=
  let n := message.length
  message ++ 0x80 :: List.replicate ((119 - n % 64) % 64) 0 ++ lengthBytes (8 * n)

/-- Folds all blocks of sixteen words; the fuel bounds their number. -/
def compressAll (x : Words) : Nat → List UInt32 → Words
  | 0, _ => x
  | fuel + 1, words =>
    if words.isEmpty then x else compressAll (compress x (words.take 16)) fuel (words.drop 16)

def hexDigits (x : UInt32) : List Char :=
  (List.range 8).map fun i => Nat.digitChar (x.toNat / Nat.pow 16 (7 - i) % 16)

def sha256 (message : ByteArray) : String :=
  let words := wordsOf (pad message.toList)
  String.ofList ((compressAll .initial (words.length / 16 + 1) words).toList.flatMap hexDigits)

end HeaderBindings.Digest
