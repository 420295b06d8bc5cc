import HeaderBindings.Text.Blank

/-!
Leftmost matches that do not overlap. A `Finder` looks for a match at one place of a text; the
functions here walk the text from left to right, take a match where one starts, and go on behind
it. `replaceAll` writes something else for each match, `spans` lists them.
-/

set_option autoImplicit false

namespace HeaderBindings.Text

/-- A match that starts here: how many characters it takes, and what is written for them. -/
structure Hit where
  length : Nat
  text : List Char

/-- Looks for a match at the start of the second argument; the first is the character before it,
`none` at the start of the text. -/
abbrev Finder := Option Char → List Char → Option Hit

/-- `replaceAll` inside a text. `skip` characters are still part of the last match; at a place that
is not `free` an empty match would touch that match, and is not taken. -/
def replaceFrom (find : Finder) (skip : Nat) (free : Bool) (before : Option Char) :
    List Char → List Char
  | [] =>
    match find before [] with
    | some hit => if free then hit.text else []
    | none => []
  | c :: cs =>
    match skip with
    | rest + 1 => replaceFrom find rest false (some c) cs
    | 0 =>
      match find before (c :: cs) with
      | none => c :: replaceFrom find 0 true (some c) cs
      | some ⟨0, text⟩ => (if free then text else []) ++ c :: replaceFrom find 0 true (some c) cs
      | some ⟨rest + 1, text⟩ => text ++ replaceFrom find rest false (some c) cs

/-- The text with the replacement of every match in place of it. -/
def replaceAll (find : Finder) (cs : List Char) : List Char := replaceFrom find 0 true none cs

/-- `spans` inside a text; `skip` characters are still part of the last match. -/
def spansFrom (find : Finder) (skip : Nat) (before : Option Char) :
    List Char → List (List Char)
  | [] => []
  | c :: cs =>
    match skip with
    | rest + 1 => spansFrom find rest (some c) cs
    | 0 =>
      match find before (c :: cs) with
      | some ⟨rest + 1, _⟩ => (c :: cs).take (rest + 1) :: spansFrom find rest (some c) cs
      | _ => spansFrom find 0 (some c) cs

/-- The matches of at least one character, in order. -/
def spans (find : Finder) (cs : List Char) : List (List Char) := spansFrom find 0 none cs

def afterLiteral : List Char → List Char → Option (List Char)
  | [], cs => some cs
  | _ :: _, [] => none
  | p :: ps, c :: cs => if p = c then afterLiteral ps cs else none

/-- What follows the literals, each with any blanks before it. -/
def afterTokens : List (List Char) → List Char → Option (List Char)
  | [], cs => some cs
  | t :: ts, cs => (afterLiteral t (dropBlanks cs)).bind (afterTokens ts)

end HeaderBindings.Text
