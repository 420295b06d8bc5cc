import HeaderBindings.Header.Rule
import HeaderBindings.Pattern.Match
import HeaderBindings.Pattern.Parse

/-!
Rules for header text that look for a pattern. In the text that is written for a match, a dollar
sign starts a reference to a group: by a number, by a name, or by either in braces; a double dollar
sign is one dollar sign. A dollar sign that starts neither stands for itself.
-/

set_option autoImplicit false

namespace HeaderBindings.Pattern

inductive Piece
  | char (c : Char)
  | numbered (index : Nat)
  | named (name : List Char)
  deriving DecidableEq, Repr

/-- The number that some digits say; a plus sign may precede them. -/
def number? (cs : List Char) : Option Nat :=
  let digits := match cs with
    | '+' :: rest => rest
    | _ => cs
  if digits.isEmpty || !digits.all Char.isDigit then none
  else some (digits.foldl (fun n c => 10 * n + (c.toNat - '0'.toNat)) 0)

def Piece.reference (cs : List Char) : Piece :=
  match number? cs with
  | some index => .numbered index
  | none => .named cs

abbrev Replacement := List Piece

namespace Replacement

def afterDollar : List Char → Piece × Nat
  | '$' :: _ => (.char '$', 1)
  | '{' :: cs =>
    let name := cs.takeWhile (· ≠ '}')
    if name.length < cs.length then (.reference name, name.length + 2) else (.char '$', 0)
  | cs =>
    let name := cs.takeWhile Text.isAsciiWord
    if name.isEmpty then (.char '$', 0) else (.reference name, name.length)

/-- The pieces of a text; `skip` characters are still part of the last piece. -/
def ofCharsFrom (skip : Nat) : List Char → Replacement
  | [] => []
  | c :: cs =>
    match skip with
    | rest + 1 => ofCharsFrom rest cs
    | 0 =>
      if c = '$' then
        let (piece, length) := afterDollar cs
        piece :: ofCharsFrom length cs
      else .char c :: ofCharsFrom 0 cs

def ofText (text : String) : Replacement := ofCharsFrom 0 text.toList

/-- The text of a piece for a match of the pattern; a group without a text leaves nothing. -/
def expandPiece (pattern : Pattern) (found : Match) : Piece → List Char
  | .char c => [c]
  | .numbered index => (found.group? index).getD []
  | .named name =>
    (((pattern.names.lookup (String.ofList name)).bind found.group?)).getD []

def expand (replacement : Replacement) (pattern : Pattern) (found : Match) : List Char :=
  replacement.flatMap (expandPiece pattern found)

end Replacement

end HeaderBindings.Pattern

namespace HeaderBindings.Header

/-- The rule that writes the replacement text for each match of the pattern; there is none if the
pattern is malformed or compiles to more than `Pattern.maxSteps` steps. -/
def Rule.ofPattern? (name pattern replacement : String) : Option Rule := do
  let pattern ← Pattern.ofText? pattern
  let program ← pattern.program?
  let replacement := Pattern.Replacement.ofText replacement
  return ⟨name, fun before cs => do
    let found ← Pattern.matchAt program before cs
    return ⟨found.length, replacement.expand pattern found⟩⟩

end HeaderBindings.Header
